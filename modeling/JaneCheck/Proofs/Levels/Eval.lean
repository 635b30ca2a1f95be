import JaneCheck.Proofs.Levels.Resolve
import JaneCheck.Proofs.Outcomes

/-!
# What evaluation asks for

A step of evaluation asks for its parts, for the value of a global that is not
open, and for the types of templates. The type arguments that a call infers are
parts of the types of its arguments, so they are covered too.
-/

namespace JaneCheck.Check

open Demand
open Syntax (Arg Expr TypeExpr)

variable {p : Package} {F : Realm p} {c : Context} {span : Span} {name : Syntax.Ident} {t : Ty}
  {types : List Ty} {e operand : Expr} {args : List Arg} {arg : Arg} {hint : Option Ty}
  {v base : Value} {ts : List TypeExpr}

/-! ## Arguments -/

theorem covers_elementType (h : F.Covers t) : F.Covers (elementType t) :=
  covers_getD h.component

theorem ofJump_pair {slots : List Slot} :
    ∀ d ∈ (pair slots args).errors, d.problem.ofJump = false := by
  intro d hd
  obtain ⟨arg, -, hrefusal⟩ := refusal_of_mem_pair hd
  cases hrefusal <;> rfl

/-- An argument without a slot is refused at its name or where it stands. -/
theorem places_pair {P : Span → Prop} {slots : List Slot} (ha : ∀ a ∈ args, a.Placed P) :
    ∀ d ∈ (pair slots args).errors, P d.span := by
  intro d hd
  obtain ⟨arg, harg, hrefusal⟩ := refusal_of_mem_pair hd
  cases hrefusal with
  | unknown h => exact (ha arg harg).name _ h
  | _ => exact (ha arg harg).place

theorem asks_spreadTuple {argSpan : Span} (sig : FnSig) (types : List Ty) (harg : F.span argSpan)
    (hspan : F.span span) : Asks F c (spreadTuple sig types argSpan span) := by
  unfold spreadTuple
  split
  · exact asks_report harg rfl
  · split
    · exact asks_report hspan rfl
    · exact .listForM fun _ _ => .discard (asks_assign _ _ harg)

theorem asks_checkArg {known : Option Value} (mutable : Bool) (ha : F.asks c (.expr arg.value))
    (hplace : F.span arg.span) (ht : F.Covers t) : Asks F c (checkArg mutable t arg known) := by
  unfold checkArg
  extract_lets rest
  have hrest : ∀ v, Asks F c (rest v) := by
    intro v
    unfold rest
    split
    · split
      · refine .then (asks_assign _ _ (F.expr ha).span) fun ok => ?_
        split
        · exact asks_checkMutability _ _ _ hplace
        · exact .pure trivial
      · exact .pure trivial
    · exact .pure trivial
  split
  · exact .then (.pure (R := fun _ => True) trivial) hrest
  · exact .then (asks_evalChecked ha (covered_some ht)) hrest

theorem asks_checkSpread {known : Option Value} (ha : F.asks c (.expr (spreadOperand arg.value)))
    (hplace : F.span arg.span) (ht : F.Covers t) : Asks F c (checkSpread t arg known) := by
  unfold checkSpread
  extract_lets rest
  have hrest : ∀ v, Asks F c (rest v) := by
    intro v
    unfold rest
    split
    · split
      · exact .discard (asks_assign _ _ hplace)
      · exact .pure trivial
    · exact .pure trivial
  split
  · exact .then (.pure (R := fun _ => True) trivial) hrest
  · exact .then (asks_evalChecked ha (covered_some ht)) hrest

section Binding

variable {args : List Arg} {known : Known} {span : Span} (ha : ∀ x ∈ argParts args, F.asks c x)
  (hplaces : ∀ a ∈ args, a.Placed F.span) (hspan : F.span span)

include ha in
theorem admits_arg (h : arg ∈ args) :
    F.asks c (.expr arg.value) ∧ F.asks c (.expr (spreadOperand arg.value)) :=
  ⟨ha _ (List.mem_flatMap.mpr ⟨arg, h, by simp⟩), ha _ (List.mem_flatMap.mpr ⟨arg, h, by simp⟩)⟩

include ha hplaces hspan

theorem asks_bindParam {param : Param Ty} (bound : Bound) (hparam : F.Covers param.type) :
    Asks F c (bindParam args known span param bound) := by
  have harg {i : Nat} {arg : Arg} (h : args[i]? = some arg) := admits_arg ha (List.mem_of_getElem? h)
  have hplace {i : Nat} {arg : Arg} (h : args[i]? = some arg) :=
    (hplaces arg (List.mem_of_getElem? h)).place
  cases bound with
  | empty =>
    dsimp only [bindParam]
    split
    · exact .pure trivial
    · exact asks_report hspan rfl
  | single i => exact .optionForM fun _ h => asks_checkArg _ (harg h).1 (hplace h) hparam
  | spread i => exact .optionForM fun _ h => asks_checkSpread (harg h).2 (hplace h) hparam
  | many is =>
    exact .listForM fun i _ => .optionForM fun _ h =>
      asks_checkArg _ (harg h).1 (hplace h) (covers_elementType hparam)

theorem asks_bindArgs {sig : FnSig} {slots : List Slot} (hs : F.Covers (.function sig)) :
    Asks F c (bindArgs sig args (pair slots args) known span) := by
  refine .then (.listForM fun d hd => asks_report (places_pair hplaces d hd) (ofJump_pair d hd))
    fun _ => .listForM fun b hb => ?_
  exact asks_bindParam ha hplaces hspan b.2 ((covers_function.mp hs).1 b.1 (List.of_mem_zip hb).1)

theorem asks_callArgs {sig : FnSig} (hs : F.Covers (.function sig)) :
    Asks F c (callArgs sig args span) := by
  unfold callArgs
  split
  · exact asks_bindArgs ha hplaces hspan hs
  next arg hlone =>
    have hmem : arg ∈ args := by
      unfold loneArg? at hlone
      split at hlone
      · split at hlone
        · cases hlone
          exact List.mem_cons_self
        · cases hlone
      · cases hlone
    refine .then (asks_evalChecked (admits_arg ha hmem).1 covered_none) fun o => ?_
    split
    · exact .pure trivial
    · split
      · exact asks_spreadTuple _ _ (hplaces arg hmem).place hspan
      · exact asks_bindArgs ha hplaces hspan hs

omit hplaces hspan in
theorem admits_received (param : Param Ty) (bound : Bound) :
    ∀ r ∈ received args param bound, F.asks c (.expr r.2.2) := by
  have harg {i : Nat} {arg : Arg} (h : args[i]? = some arg) := admits_arg ha (List.mem_of_getElem? h)
  cases bound with
  | empty => simp [received]
  | single i =>
    intro r hr
    obtain ⟨arg, h, rfl⟩ := Option.map_eq_some_iff.mp (Option.mem_toList.mp hr)
    exact (harg h).1
  | spread i =>
    intro r hr
    obtain ⟨arg, h, rfl⟩ := Option.map_eq_some_iff.mp (Option.mem_toList.mp hr)
    exact (harg h).2
  | many is =>
    intro r hr
    obtain ⟨i, -, hi⟩ := List.mem_filterMap.mp hr
    obtain ⟨arg, h, rfl⟩ := Option.map_eq_some_iff.mp hi
    exact (harg h).1

omit ha hplaces hspan in
theorem asks_inferArgs {targets : List (Nat × Ty × Expr)} {out : Inferred} (known : Known)
    (ht : ∀ r ∈ targets, F.asks c (.expr r.2.2)) (ho : Covered.By F.toDemand out) :
    AsksFor F c (inferArgs targets known out) fun r => Covered.By F.toDemand r.2 := by
  induction targets generalizing known out with
  | nil => exact .pure ho
  | cons r rest ih =>
    obtain ⟨i, t, e⟩ := r
    refine .bind (asks_eval (ht (i, t, e) List.mem_cons_self) covered_none) fun v hv => ?_
    exact ih _ (fun r h => ht r (List.mem_cons_of_mem _ h)) (covered_infer hv ho)

theorem asks_inferCall {id : FuncId} {ownerTypes : List Ty} (hc : Allows F c)
    (hopen : F.asks c .templates) (hid : F.Declares id) (ho : ∀ t ∈ ownerTypes, F.Covers t) :
    Asks F c (inferCall id ownerTypes args span) := by
  refine .package (.bind (asks_instantiateSig hc hopen id ho (by simp)) fun template _ => ?_)
  split
  · exact .report hspan rfl (.pure covers_void)
  have htargets : ∀ r ∈ (template.params.zip (pair (slots template.params) args).bound).flatMap
      fun b => received args b.1 b.2, F.asks c (.expr r.2.2) := by
    intro r hr
    obtain ⟨b, -, hr⟩ := List.mem_flatMap.mp hr
    exact admits_received ha b.1 b.2 r hr
  refine .bind (asks_inferArgs [] htargets nofun) fun found hfound => ?_
  refine .then (.listForM fun _ _ => asks_report hspan rfl) fun _ => ?_
  split
  · exact .report hspan rfl (.pure covers_void)
  next types htypes =>
    have hcov := covered_ordered hfound _ types htypes
    refine .bind (asks_instantiateSig hc hopen id ho hcov) fun sig hsig => ?_
    have hsound : F.Sound ⟨.func id, types, span⟩ :=
      ⟨hcov, hspan, nofun, nofun, by rintro _ ⟨⟩; exact hid⟩
    refine .then (asks_request hsound) fun _ => .then (asks_bindArgs ha hplaces hspan hsig) fun _ => ?_
    exact .pure (covers_function.mp hsig).2

/-! ## Struct literals -/

omit hplaces in
theorem asks_bindField (name : String) (hasDefault : Bool) (bound : Bound) (ht : F.Covers t) :
    Asks F c (bindField args span name t hasDefault bound) := by
  cases bound with
  | single i | spread i =>
    dsimp only [bindField]
    split
    next arg harg =>
      have hvalue := (admits_arg ha (List.mem_of_getElem? harg)).1
      refine .then (asks_evalChecked hvalue (covered_some ht)) fun o => ?_
      split
      · split
        · exact .discard (asks_assign _ _ (F.expr hvalue).span)
        · exact .pure trivial
      · exact .pure trivial
    · exact .pure trivial
  | many is => exact .pure trivial
  | empty =>
    dsimp only [bindField]
    split
    · exact asks_report hspan rfl
    split
    · exact .pure trivial
    · exact asks_report hspan rfl

omit hplaces in
theorem asks_bindFields {fields : List (String × Ty)} (bounds : List Bound) (infos : List FieldInfo)
    (hf : Covered.By F.toDemand fields) : Asks F c (bindFields args span fields bounds infos) := by
  induction fields generalizing bounds infos with
  | nil => exact .pure trivial
  | cons f fields ih =>
    cases bounds with
    | nil => exact .pure trivial
    | cons bound bounds =>
      refine .then (asks_bindField ha hspan f.1 _ bound (hf f (by simp)).2) fun _ => ?_
      exact ih bounds infos.tail fun g hg => hf g (by simp [hg])

theorem asks_structArgs {fields : List (String × Ty)} (id : StructId)
    (hf : Covered.By F.toDemand fields) : Asks F c (structArgs id fields args span) := by
  unfold structArgs
  split
  · refine .listForM fun f _ => ?_
    dsimp only
    split
    · exact asks_report hspan rfl
    · exact .pure trivial
  · refine .then (.listForM fun d hd => asks_report (places_pair hplaces d hd) (ofJump_pair d hd))
      fun _ => ?_
    exact .package (asks_bindFields ha hspan _ _ hf)

end Binding

/-! ## Members and elements -/

theorem asks_noMember (hname : F.span name.span) : Asks F c (noMember name) :=
  asks_refuse hname rfl covered_none

theorem covered_pureStruct (h : F.Covers t) : ∀ s ∈ pureStruct? t, ∀ g ∈ s.2, F.Covers g := by
  unfold pureStruct?
  split
  · exact h.struct
  · rintro _ ⟨⟩

theorem asks_typeMember (hname : F.span name.span) (ht : F.Covers t) :
    Asks F c (typeMember t name) := by
  refine .package ?_
  split
  · split
    · exact .pure (covered_some (show F.Covers _ from ht))
    · exact asks_noMember hname
  split
  next id types hs =>
    split
    next f hf =>
      split
      · exact .pure (covered_some ⟨F.declares_of_method hf, covered_pureStruct ht (id, types) hs⟩)
      · exact asks_noMember hname
    · exact asks_noMember hname
  · exact asks_noMember hname

theorem asks_traitMember (id : TraitId) (hname : F.span name.span) :
    Asks F c (traitMember id name) := by
  refine .package ?_
  split
  next m hm =>
    refine .pure (covered_some (show F.Covers _ from .of fun hstrict => ?_))
    exact ((F.covered hstrict).traits id).methods m (List.mem_of_find?_eq_some hm)
  · exact asks_noMember hname

theorem asks_checkIndex (i : Value) (hspan : F.span span) : Asks F c (checkIndex i span) := by
  unfold checkIndex
  split
  · exact .report hspan rfl (.pure trivial)
  split
  · split
    · exact .report hspan rfl (.pure trivial)
    · exact .pure trivial
  · exact .pure trivial

theorem asks_byteAt (text index : Option Const) (hspan : F.span span) :
    Asks F c (byteAt text index span) := by
  unfold byteAt
  split
  · split
    · exact .pure (covers_base _)
    · exact .report hspan rfl (.pure (covers_base _))
  · exact .pure (covers_base _)

theorem asks_element {indexSpan : Span} (i : Value) (hindex : F.span indexSpan)
    (hspan : F.span span) (hb : F.Covers base.type) : Asks F c (element base i indexSpan span) := by
  unfold element
  extract_lets t mutable rest
  have ht : F.Covers t := by
    unfold t
    split
    · exact hb.elem
    · exact hb
  split
  · refine .then (asks_requireUnsafe hspan) fun _ => ?_
    exact .then (.discard (asks_checkIndex _ hindex)) fun _ => .pure ht.elem
  split
  · have hrest : ∀ u, Asks F c (rest u) := fun _ => .pure (covers_getD ht.component)
    refine .then (asks_checkIndex _ hindex) fun ok => ?_
    split
    · split
      · split
        · exact .then (asks_report hindex rfl) hrest
        · exact hrest ()
      · exact hrest ()
    · exact hrest ()
  split
  · split
    next key value hparts =>
      refine .then (.discard (asks_assign _ _ hindex)) fun _ => .pure ?_
      exact ht.components value (by rw [hparts]; simp)
    · exact .pure covers_void
  split
  · refine .then (asks_checkIndex _ hindex) fun ok => ?_
    split
    · exact asks_byteAt _ _ hindex
    · exact .pure covers_void
  · exact .report hspan rfl (.pure covers_void)

section Members

variable (hc : Allows F c) (hopen : F.asks c .templates) (hname : F.span name.span)

include hc hopen hname

theorem asks_structMember (id : StructId) (isLvalue mutable : Bool) (ht : ∀ t ∈ types, F.Covers t) :
    Asks F c (structMember id types isLvalue mutable name) := by
  refine .package (.bind (asks_structFields hc hopen id ht) fun fields hfields => ?_)
  split
  next t hl =>
    have hcov : F.Covers t := covered_lookup hfields _ t hl
    refine .pure (covered_some ?_)
    show F.Covers (if isLvalue then Value.place t mutable else Value.ofType t).type
    split <;> exact hcov
  split
  next f hf =>
    split
    · exact .pure (covered_some ⟨F.declares_of_method hf, ht⟩)
    · exact asks_noMember hname
  · exact asks_noMember hname

theorem asks_valueMember (hspan : F.span span) (hb : F.Covers base.type) :
    Asks F c (valueMember base name span) := by
  unfold valueMember
  extract_lets through t rest
  have ht : F.Covers t := by
    unfold t
    split
    · exact hb.elem
    · exact hb
  have hrest : ∀ u, Asks F c (rest u) := by
    intro u
    unfold rest
    split
    · exact .pure (covered_some (covers_base _))
    split
    next id types hs =>
      exact asks_structMember hc hopen hname _ _ _ (covered_pureStruct ht (id, types) hs)
    next =>
      split
      · exact asks_traitMember _ hname
      · exact asks_noMember hname
    next => exact asks_noMember hname
  split
  · exact .then (asks_requireUnsafe hspan) hrest
  · exact hrest ()

theorem asks_member (hspan : F.span span) (hb : F.Covers base.type) :
    Asks F c (member base name span) := by
  unfold member
  split
  · exact asks_typeMember hname hb
  · exact asks_valueMember hc hopen hname hspan hb

end Members

/-! ## Literals -/

theorem covers_literal (l : Syntax.Literal) : F.Covers (literal l).type := by
  cases l with
  | int n =>
    dsimp only [literal]
    split <;> exact covers_base _
  | _ => exact covers_base _

theorem asks_arrayElements {es : List Expr} {elem : Option Ty} (hes : ∀ e ∈ es, F.asks c (.expr e))
    (he : Covered.By F.toDemand elem) : Asks F c (arrayElements es elem) := by
  induction es generalizing elem with
  | nil => exact .pure he
  | cons e es ih =>
    have hrest : ∀ e' ∈ es, F.asks c (.expr e') := fun e' h => hes e' (List.mem_cons_of_mem _ h)
    have hspan := (F.expr (hes e List.mem_cons_self)).span
    refine .bind (asks_evalChecked (hes e List.mem_cons_self) he) fun o ho => ?_
    split
    · exact ih hrest he
    · exact .then (.discard (asks_assign _ _ hspan)) fun _ => ih hrest he
    next v =>
      split
      · exact .report hspan rfl (ih hrest covered_none)
      · exact ih hrest (covered_some (ho v rfl))

theorem asks_arrayLiteral {es : List Expr} (hspan : F.span span) (hes : ∀ e ∈ es, F.asks c (.expr e))
    (hh : Covered.By F.toDemand hint) : Asks F c (arrayLiteral es hint span) := by
  unfold arrayLiteral
  extract_lets hint' length
  have hh' : Covered.By F.toDemand hint' := fun t ht => hh t (Option.mem_filter_iff.mp ht).1
  clear_value hint'
  have helem : Covered.By F.toDemand (hint'.bind Ty.component?) := by
    intro t ht
    obtain ⟨u, hu, ht⟩ := Option.bind_eq_some_iff.mp ht
    exact (hh' u hu).component t ht
  refine .bind (asks_arrayElements hes helem) fun o ho => ?_
  have hcov : F.Covers (o.getD (.base .any)) := by
    cases o with
    | none => exact covers_base _
    | some t => exact ho t rfl
  dsimp only
  split
  · split
    · exact .report hspan rfl (.pure (covers_array.mpr hcov))
    · exact .pure (covers_array.mpr hcov)
  · exact .pure (covers_slice.mpr hcov)

theorem asks_structLiteral (hc : Allows F c) (hopen : F.asks c .templates)
    (hname : F.asks c (.name name.name)) (hident : F.span name.span) (hspan : F.span span)
    (hts : ∀ t ∈ ts, F.asks c (.type t)) (ha : ∀ x ∈ argParts args, F.asks c x)
    (hplaces : ∀ a ∈ args, a.Placed F.span) : Asks F c (structLiteral name ts args span) := by
  refine .bind (asks_resolveNamed hc hident hspan hname hts) fun o ho => ?_
  split
  · exact .pure covers_void
  next t =>
    have ht : F.Covers t := ho.covers t rfl
    split
    · exact .report hident rfl (.pure covers_void)
    next id types hs =>
      refine .bind (asks_structFields hc hopen id (covered_pureStruct ht (id, types) hs))
        fun fields hfields => ?_
      exact .then (asks_structArgs ha hplaces hspan id hfields) fun _ => .pure ht

/-! ## Globals -/

theorem asks_inferredType (hspan : F.span span) (hv : F.Covers v.type) :
    Asks F c (inferredType v span) := by
  unfold inferredType
  split
  · exact .report hspan rfl (.pure covers_void)
  split
  · exact .report hspan rfl (.pure covers_void)
  · exact .pure hv

theorem asks_globalOf {decl : Syntax.GlobalDef} {declared : Option Ty} (hw : decl.Within F.span)
    (hd : Covered.By F.toDemand declared) (hv : F.Covers v.type) :
    Asks F c (globalOf decl declared v) := by
  unfold globalOf
  extract_lets rest
  have hrest : ∀ t, F.Covers t → Asks F c (rest t) := by
    intro t ht
    unfold rest
    split
    · exact .pure covers_void
    split
    · split
      · exact .report hw.value.span rfl (.then (asks_pinAll _ _) fun _ => .pure ht)
      · exact .then (asks_pinAll _ _) fun _ => .pure ht
    · exact .then (.pure (R := fun _ => True) trivial) fun _ => .pure ht
  split
  next t =>
    have ht : Asks F c (pure t >>= rest) := .bind (.pure (hd t rfl)) hrest
    refine .then (asks_assign _ _ hw.value.span) fun ok => ?_
    split
    · exact .then (asks_checkMutability _ _ _ hw.place) fun _ => ht
    · exact ht
  · exact .bind (asks_inferredType hw.value.span hv) hrest

theorem asks_computeGlobal {decl : Syntax.GlobalDef} (hw : decl.Within F.span)
    (ht : ∀ t ∈ decl.type, F.asks c (.type t)) (he : F.asks c (.expr decl.value)) :
    Asks F c (computeGlobal decl) := by
  unfold computeGlobal
  extract_lets rest
  have hrest : ∀ t, Covered.By F.toDemand t → Asks F c (rest t) := by
    intro t ht
    refine .bind (asks_evalChecked he ht) fun o ho => ?_
    split
    · exact .pure covers_void
    next v => exact asks_globalOf hw ht (ho v rfl)
  split
  next t htype => exact .bind (.resolve (ht t htype)) fun o ho => hrest o ho.covers
  · exact .bind (.pure covered_none) hrest

theorem Allows.global (hc : Allows F c) {id : GlobalId} (hid : p.HasGlobal id)
    (hpath : id ∉ c.globalPath) : Asks F (c.openGlobal id) (computeGlobal (p.global id).decl) :=
  asks_computeGlobal (F.within_global hid) (hc.globalType hid hpath) (hc.globalValue hid hpath)

theorem asks_globalValue (hc : Allows F c) {id : GlobalId} (hid : p.HasGlobal id) :
    Asks F c (globalValue id) :=
  .globalValue hid (hc.global hid)

/-! ## Names -/

section Names

variable (hc : Allows F c) (hident : F.span name.span) (hname : F.asks c (.name name.name))

include hc hident hname

theorem asks_typeValue (hspan : F.span span) (hts : ∀ t ∈ ts, F.asks c (.type t)) :
    Asks F c (typeValue name ts span) := by
  refine .bind (asks_resolveNamed hc hident hspan hname hts) fun o ho => ?_
  split
  next t => exact .pure (ho.covers t rfl)
  · exact .pure covers_void

theorem asks_definedValue : Asks F c (definedValue name) := by
  refine .package ?_
  split
  next id hid =>
    have hid : p.HasGlobal id := .inr ⟨_, hid⟩
    exact .readGlobal hid (hc.global hid)
  next id _ => exact .pure (F.covers_sig id)
  · exact asks_typeValue hc hident hname hident nofun
  · exact .report hident rfl (.pure covers_void)

omit hc hident hname in
theorem covers_builtinFunc (name : String) : ∀ sig ∈ builtinFunc? name, F.Covers (.function sig) := by
  unfold builtinFunc?
  split
  · rintro _ ⟨⟩
    exact covers_function.mpr ⟨by simp, covers_base _⟩
  · rintro _ ⟨⟩

theorem asks_identValue : Asks F c (identValue name) := by
  refine .readVar hname ?_
  split
  next sig hsig => exact .pure (covers_builtinFunc _ sig hsig)
  · exact asks_definedValue hc hident hname

theorem asks_instanceValue (hopen : F.asks c .templates) (hspan : F.span span)
    (hts : ∀ t ∈ ts, F.asks c (.type t)) : Asks F c (instanceValue name ts span) := by
  refine .package ?_
  split
  next id hm =>
    split
    next problem harity => exact .report hspan (ofJump_arityProblem harity) (.pure covers_void)
    refine .bind (asks_resolveArgs hts) fun o ho => ?_
    split
    · exact .pure covers_void
    next types =>
      have htypes := (ho types rfl).1.covers
      refine .bind (asks_instantiateSig hc hopen id nofun htypes) fun sig hsig => ?_
      have hsound : F.Sound ⟨.func id, types, span⟩ :=
        ⟨htypes, hspan, nofun, nofun, by rintro _ ⟨⟩; exact F.declares_of_lookup hm⟩
      exact .then (asks_request hsound) fun _ => .pure hsig
  · exact asks_typeValue hc hident hname hspan hts

end Names

/-! ## Operators -/

theorem covers_unaryValue {op : Syntax.UnOp} (hv : F.Covers v.type) :
    ∀ r ∈ unaryValue? op v, F.Covers r.type := by
  unfold unaryValue?
  repeat' split
  all_goals rintro _ ⟨⟩
  all_goals first | exact hv | exact hv.elem | exact covers_pointer.mpr hv

theorem asks_unary (op : Syntax.UnOp) (hspan : F.span span) (he : F.asks c (.expr operand))
    (hh : Covered.By F.toDemand hint) : Asks F c (unary op operand hint span) := by
  have hhint : Covered.By F.toDemand (if op == .deref || op == .addressOf then none else hint) := by
    split
    · exact covered_none
    · exact hh
  refine .bind (asks_eval he hhint) fun v hv => ?_
  split
  · exact .pure covers_void
  split
  next r hr =>
    have hcov := covers_unaryValue hv r hr
    split
    · exact .then (asks_requireUnsafe hspan) fun _ => .pure hcov
    · exact .pure hcov
  · exact .report hspan rfl (.pure covers_void)

theorem asks_binary {l r : Expr} (op : Syntax.BinOp) (hspan : F.span span)
    (hl : F.asks c (.expr l)) (hr : F.asks c (.expr r)) : Asks F c (binary op l r span) := by
  refine .bind (asks_eval hl covered_none) fun x hx => ?_
  refine .bind (asks_eval hr covered_none) fun y hy => ?_
  split
  · exact .pure covers_void
  · exact asks_solve op hspan hx hy

theorem asks_subscript {base index : Expr} (hspan : F.span span) (hb : F.asks c (.expr base))
    (hi : F.asks c (.expr index)) : Asks F c (subscript base index span) := by
  refine .bind (asks_eval hb covered_none) fun x hx => .then (asks_eval hi covered_none) fun i => ?_
  split
  · exact .pure covers_void
  · exact asks_element i (F.expr hi).span hspan hx

theorem asks_cast {target : TypeExpr} (hspan : F.span span) (he : F.asks c (.expr operand))
    (ht : F.asks c (.type target)) : Asks F c (Check.cast operand target span) := by
  refine .bind (.resolve ht) fun o ho => .then (asks_eval he covered_none) fun v => ?_
  split
  · exact .pure covers_void
  next t =>
    have hcov : F.Covers t := ho.covers t rfl
    split
    · exact .pure covers_void
    split
    · exact .pure hcov
    refine .package ?_
    split
    · dsimp only
      split
      · exact .then (asks_pinAll _ _) fun _ => .pure hcov
      · exact .then (.pure (R := fun _ => True) trivial) fun _ => .pure hcov
    · exact .report hspan rfl (.pure covers_void)

/-! ## Calls -/

theorem asks_callable (hspan : F.span span) (hv : F.Covers v.type) : Asks F c (callable v span) := by
  unfold callable
  split
  next sig hsig =>
    split
    · exact .pure (covered_some (covers_function.mpr (hv.signature sig hsig)))
    · exact asks_refuse hspan rfl covered_none
  · exact asks_refuse hspan rfl covered_none

theorem asks_annotateTemplate (hspan : F.span span) (id : FuncId) :
    Asks F c (annotateTemplate span id) :=
  .package (asks_annotate hspan (F.covers_sig id))

/-- The generic function that a name stands for is declared. -/
theorem asks_templateOf (he : ∀ x ∈ calleeParts e, F.asks c x) :
    AsksFor F c (templateOf? e) fun o => ∀ id ∈ o, F.Declares id := by
  unfold templateOf?
  split
  · refine .then (.lookupVar (he _ (by simp [calleeParts]))) fun o => ?_
    split
    · exact .pure (by simp)
    refine .package ?_
    split
    next id hm =>
      refine .pure fun id' h => ?_
      split at h
      · cases h
        exact F.declares_of_lookup hm
      · cases h
    · exact .pure (by simp)
  · exact .pure (by simp)

section Calls

variable (hc : Allows F c) (hopen : F.asks c .templates)

include hc hopen

theorem asks_memberCallee {base : Expr} (hname : F.span name.span) (hspan : F.span span)
    (hb : F.asks c (.expr base)) : Asks F c (memberCallee base name span) := by
  refine .bind (.evalAny hb covered_none) fun v hv => ?_
  split
  · exact .pure covered_none
  refine .bind (asks_member hc hopen hname hspan hv) fun o ho => ?_
  split
  · exact .pure covered_none
  next id owner =>
    have hmethod : F.CoveredMember (.method id owner) := ho (.method id owner) rfl
    refine .package ?_
    split
    · exact .then (asks_annotateTemplate hspan _) fun _ => .pure (covered_some hmethod)
    · refine .bind (asks_instantiateSig hc hopen id hmethod.2 nofun) fun sig hsig => ?_
      exact .then (asks_annotate hspan hsig) fun _ => .pure (covered_some hsig)
  next v =>
    have hv : F.Covers v.type := ho (.value v) rfl
    exact .then (asks_annotate hspan hv) fun _ => asks_callable hspan hv

theorem asks_callee (hparts : ∀ x ∈ calleeParts e, F.asks c x) (he : e.Within F.span) :
    Asks F c (callee e) := by
  unfold callee
  split
  next base name span =>
    cases he with
    | field hspan _ hname =>
      exact asks_memberCallee hc hopen hname hspan (hparts _ (by simp [calleeParts]))
  next =>
    have hself : F.asks c (.expr e) := by
      refine hparts _ ?_
      unfold calleeParts
      split <;> simp_all
    refine .bind (asks_templateOf hparts) fun o hid => ?_
    rcases o with _ | id
    rotate_left
    · refine .then (asks_annotateTemplate he.span _) fun _ => .pure (covered_some ?_)
      exact ⟨hid id rfl, List.forall_mem_nil _⟩
    · refine .since (g := fun out v => if v.type.isVoid && decide (out.diags ≠ []) then pure none
        else callable v e.span) (.evalAny hself covered_none) (fun out v hv => ?_) fun v h => ?_
      · split
        · exact .pure covered_none
        · exact asks_callable he.span hv
      · simp only [h.reports]

theorem asks_call {f : Expr} (hspan : F.span span) (hparts : ∀ x ∈ calleeParts f, F.asks c x)
    (hf : f.Within F.span) (ha : ∀ x ∈ argParts args, F.asks c x)
    (hplaces : ∀ a ∈ args, a.Placed F.span) : Asks F c (call f args span) := by
  refine .bind (asks_callee hc hopen hparts hf) fun o ho => ?_
  split
  · exact .pure covers_void
  next id owner =>
    have hcallee : F.CoveredCallee (.template id owner) := ho (.template id owner) rfl
    exact asks_inferCall ha hplaces hspan hc hopen hcallee.1 hcallee.2
  next sig =>
    have hsig : F.Covers (.function sig) := ho (.known sig) rfl
    have hrest : Asks F c (callArgs sig args span >>= fun _ => pure (Value.ofType sig.ret)) :=
      .then (asks_callArgs ha hplaces hspan hsig) fun _ => .pure (covers_function.mp hsig).2
    split
    · exact .then (asks_requireUnsafe hspan) fun _ => hrest
    · exact hrest

/-! ## Expressions -/

theorem asks_fieldValue {base : Expr} (hname : F.span name.span) (hspan : F.span span)
    (hb : F.asks c (.expr base)) : Asks F c (fieldValue base name span) := by
  refine .bind (.evalAny hb covered_none) fun v hv => ?_
  split
  · exact .pure covers_void
  refine .bind (asks_member hc hopen hname hspan hv) fun o ho => ?_
  split
  · exact .pure covers_void
  next v => exact .pure (show F.Covers v.type from ho (.value v) rfl)
  next id owner =>
    have hmethod : F.CoveredMember (.method id owner) := ho (.method id owner) rfl
    exact .package (.bind (asks_instantiateSig hc hopen id hmethod.2 nofun) fun sig hsig => .pure hsig)

end Calls

theorem asks_strayRest (hspan : F.span span) (he : F.asks c (.expr operand)) :
    Asks F c (strayRest operand span) :=
  .report hspan rfl (.then (.discard (asks_eval he covered_none)) fun _ => .pure covers_void)

theorem asks_exprValue (hc : Allows F c) (hparts : ∀ x ∈ exprParts e, F.asks c x)
    (he : e.Within F.span) (hh : Covered.By F.toDemand hint) : Asks F c (exprValue e hint) := by
  cases he with
  | literal _ => exact .pure (covers_literal _)
  | ident hspan => exact asks_identValue hc hspan (hparts _ (by simp [exprParts]))
  | generic hspan _ hident =>
    obtain ⟨hname, hparts⟩ := List.forall_mem_cons.mp hparts
    obtain ⟨hopen, hts⟩ := List.forall_mem_cons.mp hparts
    exact asks_instanceValue hc hident hname hopen hspan fun t ht => hts _ (List.mem_map_of_mem ht)
  | binary hspan _ _ =>
    exact asks_binary _ hspan (hparts _ (by simp [exprParts])) (hparts _ (by simp [exprParts]))
  | unary hspan _ => exact asks_unary _ hspan (hparts _ (by simp [exprParts])) hh
  | call hspan hf _ hplaces =>
    obtain ⟨hopen, hparts⟩ := List.forall_mem_cons.mp hparts
    obtain ⟨hcallee, ha⟩ := List.forall_mem_append.mp hparts
    exact asks_call hc hopen hspan hcallee hf ha hplaces
  | field hspan _ hname =>
    exact asks_fieldValue hc (hparts _ (by simp [exprParts])) hname hspan
      (hparts _ (by simp [exprParts]))
  | index hspan _ _ =>
    exact asks_subscript hspan (hparts _ (by simp [exprParts])) (hparts _ (by simp [exprParts]))
  | structLit hspan _ _ hplaces hident =>
    obtain ⟨hname, hparts⟩ := List.forall_mem_cons.mp hparts
    obtain ⟨hopen, hparts⟩ := List.forall_mem_cons.mp hparts
    obtain ⟨hts, ha⟩ := List.forall_mem_append.mp hparts
    exact asks_structLiteral hc hopen hname hident hspan (fun t ht => hts _ (List.mem_map_of_mem ht))
      ha hplaces
  | array hspan _ => exact asks_arrayLiteral hspan (fun e h => hparts _ (List.mem_map_of_mem h)) hh
  | cast hspan _ _ =>
    exact asks_cast hspan (hparts _ (by simp [exprParts])) (hparts _ (by simp [exprParts]))
  | spread hspan _ => exact asks_strayRest hspan (hparts _ (by simp [exprParts]))

theorem asks_evalStep (hc : Allows F c) (hparts : ∀ x ∈ exprParts e, F.asks c x)
    (he : e.Within F.span) (hh : Covered.By F.toDemand hint) : Asks F c (evalStep e hint) :=
  .bind (asks_exprValue hc hparts he hh) fun _ hv => .then (asks_annotate he.span hv) fun _ => .pure hv

/-! ## Where nothing is said of types -/

section Lax

variable {Q : Context → Part → Prop} (hc : Allows (.lax p Q) c)

include hc

theorem asks_resolveStep_lax {t : TypeExpr} (hparts : ∀ x ∈ typeParts t, Q c x) :
    AsksFor (.lax p Q) c (resolveStep t) ((Demand.lax p).Meant c t) :=
  asks_resolveStep hc hparts (t.within_of_forall fun _ => trivial)

theorem asks_evalStep_lax (hparts : ∀ x ∈ exprParts e, Q c x) :
    Asks (.lax p Q) c (evalStep e hint) :=
  asks_evalStep hc hparts (e.within_of_forall fun _ => trivial) (covered_lax hint)

end Lax

end JaneCheck.Check
