import JaneCheck.Proofs.InferredCalls
import JaneCheck.Proofs.Suppression

/-!
# Calls with written type arguments

A call of a generic function may leave its type arguments to inference or write
them. Both go through the same parts, in another order: where they are written,
the signature comes first and the arguments are evaluated against it. So what
passed with inferred type arguments passes with written ones, and leads to the
same value and the same instance (`written_call_agrees`).

Some things are checked for one of the two alone. `WrittenAlike` excludes them, and
`spellings` has a program for each that shows why.
-/

namespace JaneCheck.Check

open Demand (covers_lax)
open Syntax (Arg Expr Ident TypeExpr)

variable {p : Package} {o : Options} {n : Nat} {c : Context} {s s' : State}

/-! ## Arguments of a known signature -/

section Arguments

variable {args : List Arg}

theorem passes_known {env : Env} {v : Value} {known : Option Value} {f : Option Value → Check Unit}
    (hknown : ∀ w ∈ known, w = v) (hnone : Passes env s (f none) ())
    (hsome : Passes env s (f (some v)) ()) : Passes env s (f known) () := by
  cases known with
  | none => exact hnone
  | some w => exact hknown w rfl ▸ hsome

theorem passes_bindParam {known known' : Known} {span span' : Span}
    {param : Param Ty} {bound : Bound}
    (hvalues : ∀ r ∈ received args param bound, ∃ v, known.lookup r.1 = some v ∧
      Passes (envAt p o n c) s (eval r.2.2 (some r.2.1)) v)
    (hknown : ∀ i, ∀ v ∈ known'.lookup i, known.lookup i = some v)
    (h : Passes (envAt p o n c) s (bindParam args known span param bound) ()) :
    Passes (envAt p o n c) s (bindParam args known' span' param bound) () := by
  have hsame : ∀ {i v}, known.lookup i = some v → ∀ w ∈ known'.lookup i, w = v := by
    intro i v hv w hw
    cases hv.symm.trans (hknown i w hw)
    rfl
  cases bound with
  | empty =>
    dsimp only [bindParam] at h ⊢
    by_cases hopt : (param.variadic || param.hasDefault) = true
    · rw [if_pos hopt]
      exact .pure ()
    · rw [if_neg hopt] at h
      obtain ⟨s1, hrun, hpassed⟩ := h.exists_run
      exact (leads_newError (.refl s) rfl hrun hpassed).elim
  | single i =>
    dsimp only [bindParam] at h ⊢
    cases harg : args[i]? with
    | none => exact .pure ()
    | some arg =>
      obtain ⟨v, hv, hpasses⟩ := hvalues (i, param.type, arg.value) (by simp [received, harg])
      rw [harg, hv] at h
      exact passes_known (f := checkArg param.mutable param.type arg) (hsame hv)
        (hpasses.evalChecked (.pure ()) h) h
  | spread i =>
    dsimp only [bindParam] at h ⊢
    cases harg : args[i]? with
    | none => exact .pure ()
    | some arg =>
      obtain ⟨v, hv, hpasses⟩ := hvalues (i, param.type, spreadOperand arg.value)
        (by simp [received, harg])
      rw [harg, hv] at h
      exact passes_known (f := checkSpread param.type arg) (hsame hv)
        (hpasses.evalChecked (.pure ()) h) h
  | many is =>
    dsimp only [bindParam] at h ⊢
    have hasks : ∀ i ∈ is, Asks (.any p) c (args[i]?.forM fun arg =>
        checkArg param.mutable (elementType param.type) arg (known.lookup i)) := by
      refine fun i _ => .optionForM fun arg harg => ?_
      exact asks_checkArg _ trivial trivial (covers_lax _)
    obtain ⟨s1, hrun, hpassed⟩ := h.exists_run
    obtain ⟨-, hall⟩ := leads_forM hasks (.refl s) hrun hpassed
    refine .forM fun i hi => ?_
    have hi' := hall i hi
    cases harg : args[i]? with
    | none => exact .pure ()
    | some arg =>
      obtain ⟨v, hv, hpasses⟩ := hvalues (i, elementType param.type, arg.value)
        (List.mem_filterMap.mpr ⟨i, hi, by rw [harg]; rfl⟩)
      rw [harg, hv] at hi'
      exact passes_known (f := checkArg param.mutable (elementType param.type) arg) (hsame hv)
        (hpasses.evalChecked (.pure ()) hi') hi'

/-- An argument that may stand for all parameters is received by the first. -/
theorem exists_target_lone {sig : FnSig} {arg : Arg} (h : loneArg? sig args = some arg) :
    ∃ r ∈ targets sig args, r.1 = 0 ∧ r.2.2 = arg.value := by
  unfold loneArg? at h
  split at h
  next a =>
    split at h
    next hlone =>
      cases h
      simp only [Bool.and_eq_true, decide_eq_true_eq, Option.isNone_iff_eq_none,
        Bool.not_eq_true'] at hlone
      obtain ⟨⟨hname, hparams⟩, hspread⟩ := hlone
      cases hps : sig.params with
      | nil => simp [hps] at hparams
      | cons q qs =>
        cases hvariadic : q.variadic with
        | true =>
          refine ⟨(0, elementType q.type, arg.value), ?_, rfl, rfl⟩
          simp [targets, hps, slots, pair, Pairing.walk, Pairing.target, Pairing.put,
            Pairing.bindArg, hname, hvariadic, hspread, received]
        | false =>
          refine ⟨(0, q.type, arg.value), ?_, rfl, rfl⟩
          simp [targets, hps, slots, pair, Pairing.walk, Pairing.target, Pairing.put,
            Pairing.bindArg, hname, hvariadic, received]
    next => cases h
  next => cases h

theorem loneArg?_congr {sig sig' : FnSig} (h : slots sig.params = slots sig'.params) :
    loneArg? sig args = loneArg? sig' args := by
  have hlength : sig.params.length = sig'.params.length := by
    simpa [slots] using congrArg List.length h
  unfold loneArg?
  rw [hlength]

/-- Nothing of what sets the two ways to write a call apart: no type argument is
an enum, an unsafe function is called in unsafe code, the only argument of several
parameters is no tuple, and an array literal is the same where its parameter's
type is expected. -/
structure WrittenAlike (p : Package) (o : Options) (n : Nat) (c : Context) (s : State) (id : FuncId)
    (args : List Arg) (ts : List Ty) : Prop where
  enums : ∀ t ∈ ts, t.isEnum = false
  isUnsafe : (p.func id).decl.isUnsafe = true →
    c.func.isUnsafe = true ∨ ∃ b ∈ c.block, s.scopes.inUnsafe b = true
  tuple : ∀ arg v s1, loneArg? (p.func id).sig args = some arg →
    run p o n c (evalAny arg.value none) s = some (v, s1) → v.type.isTuple = false
  literals : ∀ sig s1, run p o n c (instantiateSig id [] ts) s = some (sig, s1) →
    ∀ r ∈ targets sig args, Suits p o c s n r.2.1 r.2.2

variable {id : FuncId} {ts : List Ty} {sig : FnSig}

theorem passes_callArgs (h : Accepts p o n c s id args ts sig)
    (halike : WrittenAlike p o n c s id args ts) (span : Span) :
    Passes (envAt p o n c) s (callArgs sig args span) () := by
  obtain ⟨known, span0, heval, hcovers, hparams⟩ := h.params
  obtain ⟨s1, hsig, -⟩ := h.signature.exists_run
  have hvalues : ∀ r ∈ targets sig args, ∃ v, known.lookup r.1 = some v ∧
      Passes (envAt p o n c) s (eval r.2.2 none) v := by
    intro r hr
    obtain ⟨r', hr', hplace, hexpr⟩ := exists_target h.slots hr
    rw [← hplace, ← hexpr]
    exact heval.lookup (hcovers r' hr')
  have hbind : ∀ known' : Known, (∀ i, ∀ v ∈ known'.lookup i, known.lookup i = some v) →
      Passes (envAt p o n c) s
        (bindArgs sig args (pair (slots sig.params) args) known' span) () := by
    refine fun known' hknown => .bind h.errors (.forM fun b hb => ?_)
    refine passes_bindParam (fun r hr => ?_) hknown (hparams b hb)
    have hmem : r ∈ targets sig args := List.mem_flatMap.mpr ⟨b, hb, hr⟩
    obtain ⟨v, hv, hpasses⟩ := hvalues r hmem
    exact ⟨v, hv, hpasses.hint (halike.literals sig s1 hsig r hmem)⟩
  unfold callArgs
  split
  · exact hbind [] fun _ _ h => by cases h
  next arg hlone =>
    obtain ⟨r, hr, hplace, hexpr⟩ := exists_target_lone hlone
    obtain ⟨v, hv, hpasses⟩ := hvalues r hr
    rw [hplace] at hv
    rw [hexpr] at hpasses
    obtain ⟨s2, hrun, hpassed⟩ := hpasses.exists_run
    obtain ⟨hrun, -⟩ := leads_eval (.refl s) hrun hpassed
    rw [← loneArg?_congr h.slots] at hlone
    refine hpasses.evalChecked (.pure ()) ?_
    dsimp only
    rw [halike.tuple arg v s2 hlone hrun]
    refine hbind [(0, v)] fun i w hw => ?_
    cases i with
    | zero =>
      cases hw
      exact hv
    | succ i => cases hw

end Arguments

/-! ## Calls with written type arguments -/

section Written

variable {id : FuncId} {ts : List Ty} {sig : FnSig} {gs : List TypeExpr}

/-- The type expression denotes the type, and no error is reported. -/
def Resolves (p : Package) (o : Options) (n : Nat) (c : Context) (s : State) (g : TypeExpr)
    (t : Ty) : Prop :=
  ∃ s1, run p o n c (resolve g) s = some (some t, s1) ∧ s.Passed s1

theorem passes_resolveAll (h : List.Forall₂ (Resolves p o n c s) gs ts) :
    Passes (envAt p o n c) s (resolveAll gs) (some ts) := by
  induction h with
  | nil => exact .pure _
  | cons hg _ ih =>
    obtain ⟨s1, hrun, hpassed⟩ := hg
    have hfirst := leads_passes (.resolve trivial) (.refl s) hrun hpassed
    exact .bind hfirst.2 (.bind ih (.pure _))

theorem passes_resolveArgs (h : List.Forall₂ (Resolves p o n c s) gs ts)
    (henums : ∀ t ∈ ts, t.isEnum = false) :
    Passes (envAt p o n c) s (resolveArgs gs) (some ts) := by
  refine .bind (passes_resolveAll h) ?_
  have hnone : (ts.zip gs).find? (·.1.isEnum) = none := by
    rw [List.find?_eq_none]
    intro e he
    simp [henums e.1 (List.of_mem_zip he).1]
  dsimp only
  rw [hnone]
  exact .pure _

theorem yields_request (env : Env) (s : State) (template : Template) (types : List Ty)
    (span : Span) :
    ∃ out : Output, out.Clean ∧ (types.any Ty.hasGeneric = false →
        ⟨template, types, span⟩ ∈ out.requests) ∧
      Yields env s (request template types span) () out := by
  unfold request
  split
  next h => exact ⟨{}, Output.clean_of_nil rfl, fun h' => absurd h (by simp [h']), .pure ()⟩
  · exact ⟨{ requests := [⟨template, types, span⟩] }, Output.clean_of_nil rfl, fun _ => by simp,
      yields_update _ (fun _ => by constructor <;> simp) fun _ => rfl⟩

variable {name : Ident}

/-- The name with its type arguments stands for the instance, and asks for it. -/
theorem exists_yields_callee (gspan : Span) (hid : p.lookup? name.name = some (.func id))
    (hgs : List.Forall₂ (Resolves p o n c s) gs ts) (henums : ∀ t ∈ ts, t.isEnum = false)
    (harity : ts.length = (p.func id).generics.length)
    (hsig : Passes (envAt p o n c) s (instantiateSig id [] ts) sig) :
    ∃ out : Output, out.Clean ∧ (ts.any Ty.hasGeneric = false →
        ⟨.func id, ts, gspan⟩ ∈ out.requests) ∧
      Yields (envAt p o (n + 1) c) s (callee (.generic name gs gspan)) (some (.known sig)) out := by
  obtain ⟨out1, hclean1, hargs⟩ := passes_resolveArgs hgs henums
  obtain ⟨out2, hclean2, hsig⟩ := hsig
  obtain ⟨out3, hclean3, hmem, hrequest⟩ :=
    yields_request (envAt p o n c) s (.func id) ts gspan
  have hvalue : Yields (envAt p o n c) s (exprValue (.generic name gs gspan) none)
      (.ofType (.function sig)) (out1 ++ (out2 ++ (out3 ++ {}))) := by
    refine .package ?_
    rw [show (envAt p o n c).package.lookup? name.name = some (.func id) from hid]
    have hnone : arityProblem? ((envAt p o n c).package.func id).generics.length gs.length = none :=
      if_pos (harity.symm.trans hgs.length_eq.symm)
    dsimp only
    rw [hnone]
    exact hargs.bind (hsig.bind (hrequest.bind (.pure _)))
  rw [Output.append_empty] at hvalue
  obtain ⟨out, hclean, hrequests, hany⟩ :=
    hvalue.evalAny (hclean1.append (hclean2.append hclean3))
  have hcallee : Yields (envAt p o (n + 1) c) s (callee (.generic name gs gspan))
      (some (.known sig)) ({} ++ (out ++ {})) :=
    .bind (.pure none) (.state fun _ _ => hany.bind (.state fun _ _ => .pure _))
  rw [Output.append_empty, Output.empty_append] at hcallee
  refine ⟨out, hclean, fun h => ?_, hcallee⟩
  simp [hrequests, hmem h]

theorem passes_requireUnsafe (span : Span) (h : c.func.isUnsafe = true ∨
      ∃ b ∈ c.block, s.scopes.inUnsafe b = true) :
    Passes (envAt p o n c) s (requireUnsafe span) () := by
  have hflag : Yields (envAt p o n c) s inUnsafe true {} := by
    refine .context ?_
    by_cases hfunc : (envAt p o n c).context.func.isUnsafe = true
    · rw [if_pos hfunc]
      exact .pure true
    · rw [if_neg hfunc]
      obtain ⟨b, hb, hblock⟩ := h.resolve_left hfunc
      rw [show (envAt p o n c).context.block = some b from hb]
      refine .state fun t ht => ?_
      rw [(State.beside_of_view ht).inUnsafe b, hblock]
      exact .pure true
  exact .bind ⟨{}, Output.clean_of_nil rfl, hflag⟩ (.pure ())

/-- The call with written type arguments. -/
theorem exists_yields_call {args : List Arg} (span gspan : Span)
    (hid : p.lookup? name.name = some (.func id))
    (hgs : List.Forall₂ (Resolves p o n c s) gs ts)
    (harity : ts.length = (p.func id).generics.length)
    (haccepts : Accepts p o n c s id args ts sig) (halike : WrittenAlike p o n c s id args ts)
    (hint : Option Ty) :
    ∃ out : Output, out.Clean ∧ (ts.any Ty.hasGeneric = false →
        ⟨.func id, ts, gspan⟩ ∈ out.requests) ∧
      Yields (envAt p o (n + 2) c) s (evalAny (.call (.generic name gs gspan) args span) hint)
        (.ofType sig.ret) out := by
  obtain ⟨out1, hclean1, hrequest, hcallee⟩ :=
    exists_yields_callee gspan hid hgs halike.enums harity haccepts.signature
  have hrest : Passes (envAt p o (n + 1) c) s (do
      callArgs sig args span
      return Value.ofType sig.ret) (.ofType sig.ret) := by
    have hasks : Asks (.any p) c (callArgs sig args span) :=
      asks_callArgs (fun _ _ => trivial) (fun _ _ => ⟨trivial, fun _ _ => trivial⟩) trivial
        (covers_lax _)
    exact .bind ((passes_callArgs haccepts halike span).deeper hasks (Nat.le_succ n)) (.pure _)
  have hbody : Passes (envAt p o (n + 1) c) s (do
      if sig.isUnsafe then requireUnsafe span
      callArgs sig args span
      return Value.ofType sig.ret) (.ofType sig.ret) := by
    cases hflag : sig.isUnsafe with
    | true =>
      rw [haccepts.isUnsafe] at hflag
      exact .bind (passes_requireUnsafe span (halike.isUnsafe hflag)) hrest
    | false => exact hrest
  obtain ⟨out2, hclean2, hbody⟩ := hbody
  have hcall : Yields (envAt p o (n + 1) c) s
      (exprValue (.call (.generic name gs gspan) args span) hint) (.ofType sig.ret)
      (out1 ++ out2) := hcallee.bind hbody
  obtain ⟨out, hclean, hrequests, hany⟩ := hcall.evalAny (hclean1.append hclean2)
  exact ⟨out, hclean, fun h => by simp [hrequests, hrequest h], hany⟩

end Written

/-! ## The two ways to write a call -/

section Agreement

variable {id : FuncId} {args : List Arg} {ts : List Ty} {sig : FnSig} {t : State}

theorem Infers.congr (h : Infers p o n c s id args ts) (hview : t.view = s.view) :
    Infers p o n c t id args ts := by
  obtain ⟨known, found, s1, hrun, hts⟩ := h
  obtain ⟨out, -, hreplay⟩ := (asks_targets _).replays hrun
  obtain ⟨t1, hrun', -⟩ := hreplay t hview
  exact ⟨known, found, t1, hrun', hts⟩

theorem Accepts.congr (h : Accepts p o n c s id args ts sig) (hview : t.view = s.view) :
    Accepts p o n c t id args ts sig where
  slots := h.slots
  isUnsafe := h.isUnsafe
  signature := h.signature.congr hview
  errors := h.errors.congr hview
  params := by
    obtain ⟨known, span, heval, hcovers, hparams⟩ := h.params
    exact ⟨known, span, heval.congr hview, hcovers, fun b hb => (hparams b hb).congr hview⟩

/-- The name of a generic function stands for its template. -/
theorem leads_callee_template {name : Ident} (hname : Names p o n c s (.ident name) id)
    (hgeneric : (p.func id).isGeneric = true) :
    Leads .any (envAt p o n c) s (callee (.ident name)) fun a s1 =>
      a = some (.template id []) ∧ s1.view = s.view := by
  cases hname with
  | plain hvar hbuiltin hid =>
    refine .bind (leads_templateOf hid hvar hbuiltin) fun a s1 _ ha => ?_
    rw [hgeneric] at ha
    obtain ⟨rfl, rfl⟩ := ha
    refine .bind (M := fun _ s2 => s2.view = s1.view) (fun _ s2 h _ => ?_) fun _ _ _ hview =>
      .pure ⟨rfl, hview⟩
    cases h
    rfl

/-- If the call of a generic function by its name infers its type arguments and
reports no error, then the call with type expressions for them has the same value
and reports no error either, unless one of the things in `WrittenAlike` sets the two
apart. Both ask for the same instance. -/
theorem written_call_agrees {name : Ident} {gs : List TypeExpr} {span span' gspan : Span}
    {hint : Option Ty} {v : Value} (hp : p.IsTable)
    (hname : Names p o n c s (.ident name) id) (hgeneric : (p.func id).isGeneric = true)
    (hinfers : Infers p o n c s id args ts)
    (hrun : run p o (n + 1) c (evalAny (.call (.ident name) args span) hint) s = some (v, s'))
    (hpassed : s.Passed s')
    (hgs : List.Forall₂ (Resolves p o n c s) gs ts) (halike : WrittenAlike p o n c s id args ts) :
    ∃ t, (∀ m, n + 2 ≤ m →
        run p o m c (evalAny (.call (.generic name gs gspan) args span') hint) s = some (v, t)) ∧
      s.Passed t ∧
      (ts.any Ty.hasGeneric = false →
        s.Requests s' (.func id) ts ∧ s.Requests t (.func id) ts) := by
  obtain ⟨w, s₁, hcall, hannotate⟩ := run_bind.mp hrun
  obtain ⟨a, s₂, hcallee, hinfer⟩ := run_bind.mp hcall
  obtain ⟨rfl, hview⟩ := leads_callee_template hname hgeneric hcallee trivial
  have hle : s₁.Le s' := Step.le _ hannotate
  have hle₂ : s.Le s₂ := Step.le _ hcallee
  obtain ⟨sig, rfl, haccepts, hrequests⟩ := leads_inferCall hp hgeneric
    (hinfers.congr hview) span hle₂ hinfer ((Guard.passed s).of_le hle hpassed)
  obtain ⟨_, s₃, -, hvalue⟩ := run_bind.mp hannotate
  cases hvalue
  obtain ⟨known, found, s₄, -, hts⟩ := hinfers
  cases hname with
  | plain hvar hbuiltin hid =>
    obtain ⟨out, hout, hrequest, hyields⟩ := exists_yields_call span' gspan hid hgs
      (length_of_ordered hts) (haccepts.congr hview.symm) halike hint
    obtain ⟨t, hrun', hadds, hview'⟩ := hyields rfl
    refine ⟨t, fun m hm => (below_at hm).2 c _ hint hrun', hadds.passed hout hview', fun h =>
      ⟨(hrequests h).mono hle₂ hle, ⟨.func id, ts, gspan⟩, ?_, rfl, rfl⟩⟩
    rw [hadds.requests, ← Array.length_toList, List.drop_left]
    exact hrequest h

end Agreement

/-- A function with two type parameters. -/
def secondSource : Source := ⟨"main.jn", "fn second[A, B](a: A, b: B) -> B { return b }"⟩

/-- The check of the function. -/
def secondCheck : Option (Package × List StructId × Package.Instances) :=
  Report.checkCollected (Report.setupOf {} [secondSource]) 1
    (Package.collect ((Report.parseAll [secondSource]).map Report.programOf))

/-- The table that it ends with. -/
def secondTable : Package := (secondCheck.map (·.1)).getD {}

/-- A number, and an array literal. -/
def secondArgs : List Arg :=
  [⟨none, .literal (.int 1) default, default⟩,
    ⟨none, .array [.literal (.bool true) default] default, default⟩]

theorem secondTable_resolved : secondTable.IsTable ∧ secondTable.Resolved := by
  have hcheck : secondCheck.isSome = true := by decide +kernel
  obtain ⟨⟨p, order, out⟩, h⟩ := Option.isSome_iff_exists.mp hcheck
  have htable : secondTable = p := by simp [secondTable, h]
  obtain ⟨S⟩ := Report.exists_stages h
  have hcollect := Package.IsTable.collect [secondSource]
  rw [htable]
  refine ⟨?_, S.resolved (Report.sound_parseAll [secondSource]).table⟩
  exact (((hcollect.resolveAliases S.resolveAliases).resolveEnums S.resolveEnums).resolveTypes
    S.resolveTypes).computeGlobals S.computeGlobals

def secondTypes : List TypeExpr :=
  [.named ⟨"int", default⟩ [] default, .slice (.named ⟨"bool", default⟩ [] default) default]

/-- A number and a slice, for the type parameters and for the parameters. -/
def areSecond : Option (List Ty) → Bool
  | some [.base .int, .slice (.base .bool)] => true
  | _ => false

def takesSecond : List (Param Ty) → Bool
  | [⟨_, .base .int, _, false, _⟩, ⟨_, .slice (.base .bool), _, false, _⟩] => true
  | _ => false

theorem secondTable_infers :
    Infers secondTable {} 2 inOuterLoop freshBody 0 secondArgs [.base .int, .slice .bool] := by
  have hfound : (run secondTable {} 2 inOuterLoop
      (inferArgs (targets (secondTable.func 0).sig secondArgs) [] {}) freshBody).any (fun r =>
        areSecond (r.1.2.ordered? (secondTable.func 0).generics)) = true := by decide +kernel
  obtain ⟨⟨⟨known, found⟩, s1⟩, hrun, hmatch⟩ := (Option.any_eq_true _ _).mp hfound
  refine ⟨known, found, s1, hrun, ?_⟩
  unfold areSecond at hmatch
  split at hmatch
  next h => exact h
  next => cases hmatch

theorem secondTable_alike :
    WrittenAlike secondTable {} 2 inOuterLoop freshBody 0 secondArgs [.base .int, .slice .bool] where
  enums := by simp [Ty.isEnum, Ty.category]
  isUnsafe h := by
    have hsafe : (secondTable.func 0).decl.isUnsafe = false := by decide +kernel
    rw [hsafe] at h
    cases h
  tuple _ _ _ h := by cases h
  literals sig s1 hsig r hr := by
    have hparams : (run secondTable {} 2 inOuterLoop
        (instantiateSig 0 [] [.base .int, .slice .bool]) freshBody).all
          (takesSecond ·.1.params) = true := by decide +kernel
    rw [hsig, Option.all_some] at hparams
    replace hparams : takesSecond sig.params = true := hparams
    unfold takesSecond at hparams
    split at hparams
    next h =>
      have htargets : targets sig secondArgs = [(0, .base .int, .literal (.int 1) default),
          (1, .slice .bool, .array [.literal (.bool true) default] default)] := by
        simp [targets, h, slots, secondArgs, pair, Pairing.walk, Pairing.target, Pairing.put,
          Pairing.bindArg, received]
      rw [htargets] at hr
      cases hr with
      | head => exact .other fun h => by cases h.1
      | tail _ hr =>
        cases List.mem_singleton.mp hr
        exact .first (v := literal (.bool true)) rfl rfl (.other fun h => by cases h.1)
    next => cases hparams

set_option maxRecDepth 100000 in
/-- The call of the function with a number and an array literal. -/
theorem written_call_agrees_second : ∃ v s' t,
    run secondTable {} 3 inOuterLoop
      (evalAny (.call (.ident ⟨"second", default⟩) secondArgs default) none) freshBody =
        some (v, s') ∧
    (∀ m, 4 ≤ m → run secondTable {} m inOuterLoop
      (evalAny (.call (.generic ⟨"second", default⟩ secondTypes default) secondArgs default) none)
        freshBody = some (v, t)) ∧
    freshBody.Passed t ∧ freshBody.Requests s' (.func 0) [.base .int, .slice .bool] ∧
    freshBody.Requests t (.func 0) [.base .int, .slice .bool] := by
  obtain ⟨htable, hresolved⟩ := secondTable_resolved
  have hcall : (run secondTable {} 3 inOuterLoop
      (evalAny (.call (.ident ⟨"second", default⟩) secondArgs default) none) freshBody).any
      (fun r => (freshBody.added r.2).all (!·.isError)) = true := by decide +kernel
  have hid : secondTable.lookup? "second" = some (.func 0) := by decide +kernel
  have hgeneric : (secondTable.func 0).isGeneric = true := by decide +kernel
  obtain ⟨⟨v, s'⟩, hrun, hclean⟩ := (Option.any_eq_true _ _).mp hcall
  have hpassed : freshBody.Passed s' :=
    ⟨by simpa using hclean, recalls_of_resolved hresolved (.evalAny trivial Demand.covered_none) hrun⟩
  have hresolves : List.Forall₂ (Resolves secondTable {} 2 inOuterLoop freshBody) secondTypes
      [.base .int, .slice .bool] := by
    have hsame : freshBody.Passed freshBody :=
      ⟨by simp [State.added, freshBody], State.recalls_of_view rfl⟩
    exact .cons ⟨freshBody, rfl, hsame⟩ (.cons ⟨freshBody, rfl, hsame⟩ .nil)
  obtain ⟨t, hwritten, hpassed', hrequests⟩ := written_call_agrees (p := secondTable) htable
    (.plain (by decide +kernel) (by decide +kernel) hid) hgeneric secondTable_infers hrun hpassed
    hresolves secondTable_alike
  obtain ⟨hrequest, hrequest'⟩ := hrequests (by decide)
  exact ⟨v, s', t, hrun, hwritten, hpassed', hrequest, hrequest'⟩

/-- Two texts that differ in one call: its type arguments are inferred in the
first and written in the second. -/
structure Spelling where
  inferred : String
  written : String

/-- What sets the two apart: an enum, an unsafe function, a tuple for several
parameters, an array literal whose first element cannot be stored, and an
initial value that finds a cycle of constants while it is computed. -/
def spellings : List Spelling :=
  let enums := "enum E { A }\nfn id[T](v: T) -> T { return v }\n"
  let danger := "unsafe fn f[T](x: T) { }\n"
  let tuples := "fn f[T](x: T, y: int = 1) { }\n"
  let arrays := "fn g() { }\nfn f[T](v: T) { }\n"
  let cycle := "const a = b + c\nconst b = a\nconst c: [b]int = 3\n" ++
    "fn h[T](v: T, w: [c]T = nil) -> T { return v }\nfn f[T](v: T, p: [a]T, w: [c]T) { }\n"
  [⟨enums ++ "fn main() { id(E.A) }", enums ++ "fn main() { id::[E](E.A) }"⟩,
    ⟨danger ++ "fn main() { f(1) }", danger ++ "fn main() { f::[int](1) }"⟩,
    ⟨tuples ++ "fn main(t: (int, int)) { f(t) }",
      tuples ++ "fn main(t: (int, int)) { f::[(int, int)](t) }"⟩,
    ⟨arrays ++ "fn main() { f([g]) }", arrays ++ "fn main() { f::[[]fn()]([g]) }"⟩,
    ⟨"let x = f(h(1), 1, 1)\n" ++ cycle, "let x = f::[int](h(1), 1, 1)\n" ++ cycle⟩]

set_option maxRecDepth 100000 in
theorem written_call_rejected : (spellings.all fun e =>
    (Report.check {} [⟨"main.jn", e.inferred⟩]).any (!·.hasErrors) &&
      (Report.check {} [⟨"main.jn", e.written⟩]).any (·.hasErrors)) = true := by
  -- each pair of programs is run on its own
  simp only [spellings, List.all_cons, List.all_nil, Bool.and_eq_true]
  refine ⟨⟨?_, ?_⟩, ⟨?_, ?_⟩, ⟨?_, ?_⟩, ⟨?_, ?_⟩, ⟨?_, ?_⟩, trivial⟩
  all_goals decide +kernel

end JaneCheck.Check
