import JaneCheck.Proofs.Compounds
import JaneCheck.Proofs.Demand.Values
import JaneCheck.Proofs.Levels

/-!
# What resolution asks for

A step of resolution asks for its parts in its own context, for the target of an
alias that is not open, and for the types of a template with one more frame of
bindings. The one place that makes an instance is `resolveStruct`, which asks for
it, so what is found is covered.
-/

namespace JaneCheck.Check

open Demand
open Syntax (Expr TypeExpr)

variable {p : Package} {F : Realm p} {c : Context} {problem : Problem} {span : Span} {e : Expr}
  {t : TypeExpr} {ts : List TypeExpr} {types : List Ty} {v : Value}

/-! ## Steps that ask for nothing -/

theorem asks_reportAll {ps : List Problem} (hspan : F.span span) (h : ∀ q ∈ ps, q.ofJump = false) :
    Asks F c (reportAll ps span) := by
  refine .mono (.output { diags := ps.map (⟨·, span⟩) } (fun _ => .report (by simp))
    (fun s => by simp [State.put]) (by simpa using h) ⟨fun d hd => ?_, nofun, nofun⟩) fun _ _ => trivial
  obtain ⟨q, -, rfl⟩ := List.mem_map.mp hd
  exact hspan

theorem asks_report (hspan : F.span span) (h : problem.ofJump = false) :
    Asks F c (report problem span) :=
  .mono (.output { diags := [⟨problem, span⟩] } (fun _ => .report (by simp))
    (fun s => by simp [State.put]) (by simpa using h)
    ⟨List.forall_mem_singleton.mpr hspan, nofun, nofun⟩) fun _ _ => trivial

theorem AsksFor.report {f : Unit → Check α} {R : α → Prop} (hspan : F.span span)
    (h : problem.ofJump = false) (hf : AsksFor F c (f ()) R) :
    AsksFor F c (Check.report problem span >>= f) R :=
  .then (asks_report hspan h) fun _ => hf

theorem asks_annotate (hspan : F.span span) (hv : F.Covers v.type) : Asks F c (annotate span v) := by
  unfold annotate
  split
  · exact .pure trivial
  · exact .mono (.output { typings := [⟨span, v.type, v.constant⟩] } (fun _ => .annotate _)
      (fun s => by simp [State.put]) (List.forall_mem_nil _) ⟨List.forall_mem_nil _,
        List.forall_mem_singleton.mpr ⟨hv, hspan⟩, List.forall_mem_nil _⟩) fun _ _ => trivial

/-- Once asked for, an instance is in the demand, unless a type is unknown. -/
theorem asks_request {template : Template} (hr : F.Sound ⟨template, types, span⟩) :
    AsksFor F c (request template types span) fun _ =>
      types.any Ty.hasGeneric = true ∨ F.request ⟨template, types, span⟩ := by
  unfold request
  split
  next hg => exact .pure (.inl hg)
  next =>
    exact .mono (.output { requests := [⟨template, types, span⟩] } (fun _ => .request _)
      (fun s => by simp [State.put]) (List.forall_mem_nil _)
      ⟨List.forall_mem_nil _, List.forall_mem_nil _, List.forall_mem_singleton.mpr hr⟩)
      fun _ h => .inr (h _ (by simp))

theorem asks_setting : AsksFor F c setting fun s => ∀ id, F.Covers (s.defs.enumBase id) :=
  .package (.then .options fun _ => .pure F.covers_enumBase)

/-- The problems are reported, and whether there are any is the answer. -/
theorem assignBy_eq (k : Assign) (t : Ty) (v : Value) (span : Span) (env : Env) :
    assignBy k t v span env = (do
      reportAll (k.check t v) span
      return (k.check t v).isEmpty : Check Bool) env := by
  refine Step.ext fun s => ?_
  show some ((k.judge t v span s.diags).1, { s with diags := (k.judge t v span s.diags).2 }) = _
  rw [k.tells_judge t v span s.diags]
  rfl

theorem asks_assign (t : Ty) (v : Value) (hspan : F.span span) : Asks F c (assign t v span) := by
  refine .then asks_setting fun _ => .congr (assignBy_eq _ t v span)
    (.then (asks_reportAll hspan fun q hq => ?_) fun _ => .pure trivial)
  have hstorage := Assign.ofStorage_check _ _ q hq
  cases q <;> first | rfl | cases hstorage

theorem asks_solve {l r : Value} (op : Syntax.BinOp) (hspan : F.span span) (hl : F.Covers l.type)
    (hr : F.Covers r.type) : Asks F c (solve l op r span) := by
  refine .bind asks_setting fun s hs => .then (asks_reportAll hspan fun q hq => ?_) fun _ =>
    .pure (covers_solve hs hl hr)
  have hoperator := Operator.ofOperator_solve _ _ _ _ q hq
  cases q <;> first | rfl | cases hoperator

theorem asks_pin (v : Const) (t : Ty) : Asks F c (pin v t) :=
  .then .options fun _ => .pure trivial

theorem asks_pinAll (o : Option Const) (t : Ty) : Asks F c (o.mapM (pin · t)) := by
  cases o with
  | none => exact .pure nofun
  | some v => exact .map (asks_pin v t) fun _ _ _ _ => trivial

theorem asks_checkMutability (mutable : Bool) (t : Ty) (v : Value) (hspan : F.span span) :
    Asks F c (checkMutability mutable t v span) := by
  unfold checkMutability
  split
  · exact asks_report hspan rfl
  · exact .pure trivial

theorem asks_requireUnsafe (hspan : F.span span) : Asks F c (requireUnsafe span) := by
  refine .then .inUnsafe fun found => ?_
  split
  · exact asks_report hspan rfl
  · exact .pure trivial

theorem asks_refuse {R : Option α → Prop} (hspan : F.span span) (h : problem.ofJump = false)
    (hnone : R none) : AsksFor F c (refuse problem span) R :=
  .report hspan h (.pure hnone)

theorem asks_plain {t : Ty} {R : Option Ty → Prop} (hspan : F.span span) (h : ts = [] → R (some t))
    (hnone : R none) : AsksFor F c (plain t ts span) R := by
  unfold plain
  split
  next he => exact .pure (h (by simpa using he))
  · exact .report hspan rfl (.pure hnone)

/-! ## Parts -/

theorem asks_eval {hint : Option Ty} (he : F.asks c (.expr e)) (hh : Covered.By F.toDemand hint) :
    Asks F c (eval e hint) := by
  refine .bind (.evalAny he hh) fun v hv => ?_
  split
  · exact .report (F.expr he).span rfl (.pure covers_void)
  · exact .pure hv

/-- Whether the evaluation failed is read off the states before and after it. -/
theorem evalChecked_eq (e : Expr) (hint : Option Ty) (env : Env) : evalChecked e hint env = (do
    let s ← state
    let v ← eval e hint
    let s' ← state
    return if v.type.isVoid && (s.voidReads < s'.voidReads ||
      (s'.diags.extract s.diags.size s'.diags.size).any (·.isError)) then none else some v : Check _) env :=
  rfl

theorem run_evalChecked {env : Env} {s s' : State} {hint : Option Ty} {r : Option Value} :
    (evalChecked e hint env).run s = some (r, s') ↔ ∃ v, (eval e hint env).run s = some (v, s') ∧
      r = if v.type.isVoid && (s.voidReads < s'.voidReads ||
        (s'.diags.extract s.diags.size s'.diags.size).any (·.isError)) then none else some v := by
  rw [evalChecked_eq]
  constructor
  · intro h
    obtain ⟨_, _, ⟨⟩, h⟩ := run_bind.mp h
    obtain ⟨v, s1, hrun, h⟩ := run_bind.mp h
    cases h
    exact ⟨v, hrun, rfl⟩
  · rintro ⟨v, hrun, rfl⟩
    exact run_bind.mpr ⟨s, s, rfl, run_bind.mpr ⟨v, s', hrun, rfl⟩⟩

theorem covered_unless {failed : Bool} (hv : F.Covers v.type) :
    Covered.By F.toDemand (if failed then none else some v) := by
  split
  · exact covered_none
  · exact covered_some hv

theorem asks_evalChecked {hint : Option Ty} (he : F.asks c (.expr e))
    (hh : Covered.By F.toDemand hint) : Asks F c (evalChecked e hint) := by
  refine .congr (evalChecked_eq e hint) (.since (g := fun out v => pure (if out.failed v then none
    else some v)) (asks_eval he hh) (fun _ _ hv => .pure (covered_unless hv)) fun v h => ?_)
  rw [h.failed]

theorem ofJump_arityProblem {required given : Nat} {q : Problem}
    (h : arityProblem? required given = some q) : q.ofJump = false := by
  unfold arityProblem? at h
  repeat' split at h
  all_goals first | (cases h; rfl) | cases h

theorem eq_of_arityProblem {required given : Nat} (h : arityProblem? required given = none) :
    required = given := by
  unfold arityProblem? at h
  split at h
  · assumption
  · repeat' split at h
    all_goals cases h

/-- The types are those of the type expressions, one for each. -/
structure MeantAll (D : Demand) (c : Context) (ts : List TypeExpr) (us : List Ty) : Prop where
  covers : ∀ u ∈ us, D.Covers u
  length : us.length = ts.length
  denotes : D.strict → c.block = none → ∀ e ∈ ts.zip us, D.Denotes c.bound e.1 e.2

theorem asks_resolveAll (hts : ∀ t ∈ ts, F.asks c (.type t)) :
    AsksFor F c (resolveAll ts) fun o => ∀ us ∈ o, MeantAll F.toDemand c ts us := by
  induction ts with
  | nil => exact .pure (by rintro _ ⟨⟩; exact ⟨nofun, rfl, by simp⟩)
  | cons t ts ih =>
    refine .bind (.resolve (hts t (by simp))) fun first hfirst => ?_
    refine .bind (ih fun u hu => hts u (by simp [hu])) fun rest hrest => .pure fun all h => ?_
    obtain ⟨u, us, hu, hus, rfl⟩ := exists_of_both h
    refine ⟨List.forall_mem_cons.mpr ⟨hfirst.covers u hu, (hrest us hus).covers⟩,
      by simp [(hrest us hus).length], fun hstrict hblock => ?_⟩
    exact List.forall_mem_cons.mpr
      ⟨hfirst.denotes hstrict hblock u hu, (hrest us hus).denotes hstrict hblock⟩

theorem asks_resolveArgs (hts : ∀ t ∈ ts, F.asks c (.type t)) :
    AsksFor F c (resolveArgs ts) fun o =>
      ∀ us ∈ o, MeantAll F.toDemand c ts us ∧ ∀ u ∈ us, u.isEnum = false := by
  refine .bind (asks_resolveAll hts) fun o hmeant => ?_
  cases o with
  | none => exact .pure nofun
  | some types =>
    dsimp only
    split
    next u t hfind =>
      have ht := (List.of_mem_zip (List.mem_of_find?_eq_some hfind)).2
      exact asks_refuse (F.type (hts t ht)).span rfl nofun
    next hnone =>
      have hall := hmeant types rfl
      refine .pure ?_
      rintro _ ⟨⟩
      refine ⟨hall, fun u hu => ?_⟩
      obtain ⟨i, hi, rfl⟩ := List.mem_iff_getElem.mp hu
      have hi' : i < ts.length := hall.length ▸ hi
      have hmem : (types[i], ts[i]) ∈ types.zip ts :=
        List.mem_iff_getElem.mpr ⟨i, by simpa [hall.length] using hi', by simp⟩
      simpa using List.find?_eq_none.mp hnone _ hmem

theorem asks_resolveStruct (id : StructId) (hspan : F.span span)
    (hts : ∀ t ∈ ts, F.asks c (.type t)) :
    AsksFor F c (resolveStruct id ts span) fun o => ∀ u ∈ o, F.Covers u ∧ ∃ us,
      u = .struct id (p.struct id).name us ∧ (p.struct id).generics.length = ts.length ∧
        MeantAll F.toDemand c ts us ∧ ∀ u ∈ us, u.isEnum = false := by
  refine .package ?_
  dsimp only
  split
  next problem harity => exact asks_refuse hspan (ofJump_arityProblem harity) nofun
  next harity =>
    have harity := eq_of_arityProblem harity
    refine .bind (asks_resolveArgs hts) fun o hargs => ?_
    cases o with
    | none => exact .pure nofun
    | some types =>
      obtain ⟨hmeant, henum⟩ := hargs types rfl
      have hcount (hstrict : F.strict) : types.length = F.arity id := by
        rw [hmeant.length, ← harity, ((F.covered hstrict).structs id).arity]
      have hresult (hasked : F.strict → types = [] ∨ types.any Ty.hasGeneric = true ∨
          types.length = F.arity id ∧ ∃ span, F.request ⟨.struct id, types, span⟩) :
          ∀ u ∈ some (Ty.struct id (p.struct id).name types), F.Covers u ∧ ∃ us,
            u = .struct id (p.struct id).name us ∧ (p.struct id).generics.length = ts.length ∧
              MeantAll F.toDemand c ts us ∧ ∀ u ∈ us, u.isEnum = false := by
        rintro _ ⟨⟩
        refine ⟨covers_struct.mpr ⟨fun hstrict => ⟨?_, hasked hstrict⟩, hmeant.covers⟩,
          types, rfl, harity, hmeant, henum⟩
        exact ((F.covered hstrict).structs id).name
      dsimp only
      split
      · refine .bind (asks_request ⟨hmeant.covers, hspan, ?_, fun _ _ _ => henum, nofun⟩)
          fun _ hasked => .pure (hresult fun hstrict => ?_)
        · rintro hstrict _ ⟨⟩
          exact hcount hstrict
        · rcases hasked with hg | hr
          · exact .inr (.inl hg)
          · exact .inr (.inr ⟨hcount hstrict, span, hr⟩)
      next hempty => exact .pure (hresult fun _ => .inl (by simpa using hempty))

/-! ## Names -/

theorem meant_none (c : Context) (t : TypeExpr) : F.Meant c t none := ⟨nofun, fun _ _ => nofun⟩

theorem meant_some {u : Ty} (hu : F.Covers u)
    (h : F.strict → c.block = none → F.Denotes c.bound t u) : F.Meant c t (some u) :=
  ⟨covered_some hu, fun hstrict hblock => by rintro _ ⟨⟩; exact h hstrict hblock⟩

theorem covers_builtinType (name : String) : ∀ t ∈ builtinType? name, F.Covers t := by
  unfold builtinType?
  repeat' split
  all_goals rintro _ ⟨⟩
  all_goals exact covers_base _

section Names

variable {name : Syntax.Ident} (hc : Allows F c) (hident : F.span name.span) (hspan : F.span span)

include hc hident hspan

/-- A name that is not bound nor known everywhere denotes what the package says. -/
theorem asks_resolveDefined (hts : ∀ t ∈ ts, F.asks c (.type t))
    (hname : F.referent? c.bound name.name = (F.meaning name.name).map .defined) :
    AsksFor F c (resolveDefined name ts span) (F.Meant c (.named name ts span)) := by
  have hmeans {m : Meaning} (hm : p.lookup? name.name = some m) (hstrict : F.strict) :
      F.referent? c.bound name.name = some (.defined m) := by
    rw [hname, ← (F.covered hstrict).meaning, hm]
    rfl
  refine .package ?_
  split
  next id hm =>
    have hid : p.HasAlias id := .inr ⟨_, hm⟩
    refine .bind (.aliasType hid (hc.target hid)) fun target htarget => ?_
    split
    · exact .pure (meant_none _ _)
    next t =>
      obtain ⟨hcovers, hmeant⟩ := htarget t rfl
      split
      next hgs =>
        cases List.isEmpty_iff.mp hgs
        exact .pure (meant_some hcovers fun hstrict _ => .typeAlias (hmeans hm hstrict) (hmeant hstrict))
      · exact asks_refuse hspan (by split <;> rfl) (meant_none _ _)
  next id hm =>
    split
    next hgs =>
      cases List.isEmpty_iff.mp hgs
      refine .pure (meant_some (covers_enum _ _) fun hstrict _ => ?_)
      rw [((F.covered hstrict).enums id).name]
      exact .enum (hmeans hm hstrict)
    · exact asks_refuse hspan rfl (meant_none _ _)
  next id hm =>
    refine asks_plain hspan ?_ (meant_none _ _)
    rintro rfl
    refine meant_some (covers_trait _ _) fun hstrict _ => ?_
    rw [((F.covered hstrict).traits id).name]
    exact .trait (hmeans hm hstrict)
  next id hm =>
    refine .mono (asks_resolveStruct id hspan hts) fun o ho => ⟨fun u hu => (ho u hu).1, ?_⟩
    intro hstrict hblock u hu
    obtain ⟨-, us, rfl, harity, hmeant, henum⟩ := ho u hu
    have hstruct := (F.covered hstrict).structs id
    rw [hstruct.name]
    exact .struct (hmeans hm hstrict) (hstruct.arity ▸ harity) hmeant.length
      (hmeant.denotes hstrict hblock) henum
  · exact asks_refuse hident rfl (meant_none _ _)
  · exact asks_refuse hident rfl (meant_none _ _)
  · exact asks_refuse hident rfl (meant_none _ _)

theorem asks_resolveNamed (hname : F.asks c (.name name.name)) (hts : ∀ t ∈ ts, F.asks c (.type t)) :
    AsksFor F c (resolveNamed name ts span) (F.Meant c (.named name ts span)) := by
  have hplain {t : Ty} (ht : F.Covers t)
      (h : c.block = none → F.referent? c.bound name.name = some (.type t)) :
      AsksFor F c (plain t ts span) (F.Meant c (.named name ts span)) := by
    refine asks_plain hspan ?_ (meant_none _ _)
    rintro rfl
    exact meant_some ht fun _ hblock => .known (h hblock)
  refine .bound hname (fun c' hbound htemplates => ?_) fun hcontext => ?_
  · dsimp only
    rw [hbound, htemplates]
  dsimp only
  split
  next t ht =>
    have hbound : c.bound name.name = some t := by simp [Context.bound, ht]
    exact hplain (covered_bindings hcontext _ t ht) fun _ => Outline.referent?_bound hbound
  next hfree =>
  replace hfree := Option.eq_none_iff_forall_ne_some.mpr hfree
  split
  next hin =>
    have hbound : c.bound name.name = some (.generic name.name) := by
      simp [Context.bound, hfree, List.contains_iff_mem.mp hin]
    exact hplain (covers_generic _) fun _ => Outline.referent?_bound hbound
  next hout =>
  have hunbound : c.bound name.name = none := by simpa [Context.bound, hfree] using hout
  split
  next k hk => exact hplain (covers_base _) fun _ => by simp [Outline.referent?, hunbound, hk]
  next hcategory =>
  replace hcategory := Option.eq_none_iff_forall_ne_some.mpr hcategory
  refine .bind (.useLocalAlias hname) fun local? hlocal => ?_
  split
  next t => exact hplain (hlocal.1 t rfl) fun hblock => by cases hlocal.2 hblock
  split
  next t ht =>
    exact hplain (covers_builtinType _ t ht) fun _ => by
      simp [Outline.referent?, hunbound, hcategory, ht]
  next hbuiltin =>
    replace hbuiltin := Option.eq_none_iff_forall_ne_some.mpr hbuiltin
    exact asks_resolveDefined hc hident hspan hts
      (by simp [Outline.referent?, hunbound, hcategory, hbuiltin])

end Names

/-! ## Compound types -/

theorem asks_arraySize (he : F.asks c (.expr e)) : Asks F c (arraySize e) := by
  have hspan := (F.expr he).span
  refine .bind (asks_eval he covered_none) fun v _ => ?_
  split
  · split
    · exact .pure fun _ _ => trivial
    · exact asks_refuse hspan rfl nofun
  · exact .pure fun _ _ => trivial
  · exact asks_refuse hspan rfl nofun
  · split
    · exact .pure nofun
    · exact asks_refuse hspan rfl nofun

theorem covers_signature {params : List (Param Ty)} {ret : Ty} (isMethod isUnsafe : Bool)
    (hp : ∀ p ∈ params, F.Covers p.type) (hr : F.Covers ret) :
    F.Covers (.function (signature params ret isMethod isUnsafe)) :=
  covers_function.mpr ⟨hp, hr⟩

theorem type_mem_typeParts {t u : TypeExpr} (h : u ∈ t.parts) : .type u ∈ typeParts t := by
  cases t <;> simp_all [typeParts]

theorem size_mem_typeParts {t : TypeExpr} (h : t.size? = some e) : .expr e ∈ typeParts t := by
  obtain ⟨u, span, rfl⟩ := TypeExpr.eq_array_of_size? h
  simp [typeParts]

theorem asks_resolveStep (hc : Allows F c) (hparts : ∀ x ∈ typeParts t, F.asks c x)
    (ht : t.Within F.span) : AsksFor F c (resolveStep t) (F.Meant c t) := by
  have htypes : ∀ u ∈ t.parts, F.asks c (.type u) := fun u hu => hparts _ (type_mem_typeParts hu)
  rcases t.named_or_compound with ⟨name, gs, span, rfl⟩ | hcompound
  · cases ht with
    | named hident hspan _ =>
      exact asks_resolveNamed hc hident hspan (hparts _ List.mem_cons_self) htypes
  refine .congr (fun _ => resolveStep_compound hcompound) (.bind (asks_resolveAll htypes) fun o hall => ?_)
  cases o with
  | none => exact .pure (meant_none _ _)
  | some us =>
    obtain ⟨hcovers, hlength, hdenotes⟩ := hall us rfl
    rw [finish]
    split
    next hadmits =>
      have hmeant {n : Option UInt64} (hn : n.isSome = t.size?.isSome) :
          F.Meant c t (some (t.assemble us n)) := by
        refine meant_some ?_ fun hstrict hblock =>
          .assemble hcompound hlength (hdenotes hstrict hblock) hadmits hn
        exact Syntax.TypeExpr.assemble_forms (P := F.Covers) covers_slice.mpr hcovers hadmits n
          covers_void (covers_pointer.mpr (covers_base _)) (fun h _ _ => covers_pointer.mpr h)
          (fun h _ => covers_reference.mpr h) covers_array.mpr
          (fun hk hv => covers_map.mpr ⟨hk, hv⟩) (covers_signature _ _) (covers_tuple.mpr hcovers)
      split
      next hsize => exact .pure (hmeant (congrArg Option.isSome hsize.symm))
      next e hsize =>
        refine .then (asks_arraySize (hparts _ (size_mem_typeParts hsize))) fun m => .pure ?_
        cases m with
        | none => exact meant_none _ _
        | some n => exact hmeant (congrArg Option.isSome hsize.symm)
    · exact asks_refuse ht.span rfl (meant_none _ _)

/-! ## Templates -/

theorem asks_resolveOrVoid (ht : F.asks c (.type t)) : Asks F c (resolveOrVoid t) :=
  .bind (.resolve ht) fun _ ho => .pure (covers_getD ho.covers)

theorem asks_resolveParams {ps : List Syntax.Param} (hps : ∀ q ∈ ps, F.asks c (.type q.type)) :
    Asks F c (resolveParams ps) := by
  induction ps with
  | nil => exact .pure covered_nil
  | cons q ps ih =>
    refine .bind (asks_resolveOrVoid (hps q (by simp))) fun t ht => ?_
    refine .bind (ih fun q' h => hps q' (by simp [h])) fun rest hrest => .pure ?_
    refine covered_cons (a := ⟨_, _, _, _, _⟩) ?_ hrest
    show F.Covers (if q.variadic then .slice t else t)
    split
    · exact covers_slice.mpr ht
    · exact ht

theorem asks_resolveSignature {ps : List Syntax.Param} {ret : Syntax.ReturnType}
    (receiver : Option Syntax.Receiver) (isUnsafe : Bool) (hps : ∀ q ∈ ps, F.asks c (.type q.type))
    (hret : ∀ t ∈ ret.type, F.asks c (.type t)) :
    Asks F c (resolveSignature ps ret receiver isUnsafe) := by
  refine .bind (asks_resolveParams hps) fun params hparams => ?_
  split
  next t ht =>
    exact .bind (asks_resolveOrVoid (hret t ht)) fun r hr => .pure (covers_signature _ _ hparams hr)
  · exact .bind (.pure (R := F.Covers) covers_void) fun r hr => .pure (covers_signature _ _ hparams hr)

theorem asks_fieldTypes {fs : List Syntax.Field} (hfs : ∀ f ∈ fs, F.asks c (.type f.type)) :
    Asks F c (fieldTypes fs) := by
  induction fs with
  | nil => exact .pure covered_nil
  | cons f fs ih =>
    refine .bind (asks_resolveOrVoid (hfs f (by simp))) fun t ht => ?_
    refine .bind (ih fun f' h => hfs f' (by simp [h])) fun rest hrest => .pure ?_
    exact covered_cons ⟨trivial, ht⟩ hrest

section Templates

variable (hc : Allows F c) (hopen : F.asks c .templates)

include hc hopen

theorem asks_instantiateSig {ownerTypes : List Ty} (id : FuncId) (ho : ∀ t ∈ ownerTypes, F.Covers t)
    (ht : ∀ t ∈ types, F.Covers t) : Asks F c (instantiateSig id ownerTypes types) := by
  refine .package ?_
  split
  · exact .pure (F.covers_sig id)
  · refine .inTemplate (covered_append (covered_zip ho) (covered_zip ht))
      (asks_resolveSignature _ _ (fun q hq => ?_) fun t ht => ?_) fun o n s sig s' h => .sig rfl h
    · refine hc.template hopen _ _ (.func id ?_)
      exact List.mem_append_left _ (List.mem_map_of_mem hq)
    · refine hc.template hopen _ _ (.func id ?_)
      exact List.mem_append_right _ (Option.mem_toList.mpr ht)

theorem asks_structFields (id : StructId) (ht : ∀ t ∈ types, F.Covers t) :
    Asks F c (structFields id types) := by
  refine .package ?_
  split
  · refine .pure fun f hf => ?_
    obtain ⟨info, hinfo, rfl⟩ := List.mem_map.mp hf
    exact ⟨trivial, .of fun hstrict => ((F.covered hstrict).structs id).fields info hinfo⟩
  · refine .inTemplate (covered_zip ht) (asks_fieldTypes fun f hf => ?_)
      fun o n s fields s' h => .fields rfl h
    exact hc.template hopen _ _ (.struct id (List.mem_map_of_mem hf))

end Templates

end JaneCheck.Check
