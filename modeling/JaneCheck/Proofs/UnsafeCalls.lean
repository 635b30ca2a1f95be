import JaneCheck.Proofs.ScopeDiscipline
import JaneCheck.Proofs.Signatures

/-!
# Calls of unsafe functions

A call whose callee has a signature is reported in safe code if the signature is
unsafe. A name, a name with type arguments and a method lead to the signature of
the function that they name; a callee that has no type reports an error of its
own, if it reports anything but what only informs. The type arguments of a
generic function that are not written are inferred, and there nothing is
reported: `inferredUnsafe_unreported`.
-/

namespace JaneCheck.Check

open Syntax (Arg Expr Ident)

/-! ## Callees -/

variable {p : Package} {o : Options} {n : Nat} {c : Context} {s : State}

/-- The callee names a function of the package: by its name, which no variable
hides, by its name with type arguments, or as a method of a struct. -/
inductive Names (p : Package) (o : Options) (n : Nat) (c : Context) (s : State) :
    Expr → FuncId → Prop
  | plain {name : Ident} {id : FuncId} (hvar : c.block.bind (s.scopes.lookup? · name.name) = none)
    (hbuiltin : builtinFunc? name.name = none) (hid : p.lookup? name.name = some (.func id)) :
    Names p o n c s (.ident name) id
  | applied {name : Ident} {ts : List Syntax.TypeExpr} {span : Span} {id : FuncId}
    (hid : p.lookup? name.name = some (.func id)) : Names p o n c s (.generic name ts span) id
  | method {base : Expr} {name : Ident} {span : Span} {id : FuncId} {v : Value} {s1 s2 : State}
    {owner : List Ty} (hbase : run p o n c (evalAny base none) s = some (v, s1))
    (hmember : run p o n c (member v name span) s1 = some (some (.method id owner), s2)) :
    Names p o n c s (.field base name span) id

/-- The callee has no type, and only informs about it. -/
def FailsQuietly (p : Package) (o : Options) (n : Nat) (c : Context) (s : State) (f : Expr) : Prop :=
  ∃ v s1, run p o n c (evalAny f none) s = some (v, s1) ∧ v.type.isVoid = true ∧
    s.added s1 ≠ [] ∧ ∀ d ∈ s.added s1, d.isError = false

variable {G : Guard} {env : Env} {t : Ty} {v : Value} {span : Span}

theorem leads_evalAny {e : Expr} {hint : Option Ty} {Q : Value → State → Prop}
    (h : ∀ m, n = m + 1 → Leads G (envAt p o m c) s (evalStep e hint) Q) :
    Leads G (envAt p o n c) s (evalAny e hint) Q := by
  cases n with
  | zero => exact fun _ _ hrun => by cases hrun
  | succ m => exact h m rfl

theorem leads_evalStep {e : Expr} {hint : Option Ty} {Q : Value → Prop}
    (h : Leads G env s (exprValue e hint) fun v _ => Q v) :
    Leads G env s (evalStep e hint) fun v _ => Q v :=
  .bind h fun _ _ _ hv => .after fun _ _ _ => .pure hv

theorem isVoid_of_struct {x : StructId × List Ty} (h : t.struct? = some x) : t.isVoid = false := by
  induction t using Ty.category.induct with
  | case3 t ih => exact ih h
  | case4 t ih => exact ih h
  | _ => simp_all [Ty.struct?, Ty.core, Ty.isVoid, Ty.category]

theorem signature?_of_isVoid (h : t.isVoid = true) : t.signature? = none := by
  induction t using Ty.category.induct with
  | case3 t ih => exact ih h
  | case4 t ih => exact ih h
  | _ => simp_all [Ty.signature?, Ty.core, Ty.isVoid, Ty.category]

theorem isVoid_elem (t : Ty) : t.elem.isVoid = t.isVoid := by
  cases t <;> rfl

theorem isVoid_of_pureStruct {x : StructId × List Ty} (h : pureStruct? t = some x) :
    t.isVoid = false := by
  unfold pureStruct? at h
  split at h
  · exact isVoid_of_struct h
  · cases h

/-- A method is found only where there is a struct. -/
theorem leads_member_method (v : Value) (name : Ident) (span : Span) :
    Leads G env s (member v name span) fun a _ =>
      ∀ id owner, a = some (.method id owner) → v.type.isVoid = false := by
  have hnone : ∀ s, Leads G env s (noMember name) fun a _ =>
      ∀ id owner, a = some (.method id owner) → v.type.isVoid = false :=
    fun s => .after fun _ _ _ => .pure fun _ _ h => by cases h
  unfold member
  split
  · refine .package ?_
    split
    · split
      · exact .pure fun _ _ h => by cases h
      · exact hnone s
    · split
      next hstruct =>
        split
        · split
          · exact .pure fun _ _ _ => isVoid_of_pureStruct hstruct
          · exact hnone s
        · exact hnone s
      · exact hnone s
  · unfold valueMember
    extract_lets through t rest
    have ht : t.isVoid = v.type.isVoid := by
      unfold t
      split
      · exact isVoid_elem v.type
      · rfl
    have hrest : ∀ s u, Leads G env s (rest u) fun a _ =>
        ∀ id owner, a = some (.method id owner) → v.type.isVoid = false := by
      intro s u
      unfold rest
      split
      · exact .pure fun _ _ h => by cases h
      split
      next hstruct =>
        exact fun _ _ _ _ _ _ _ => ht ▸ isVoid_of_pureStruct hstruct
      · split
        · refine .package ?_
          split
          · exact .pure fun _ _ h => by cases h
          · exact hnone s
        · exact hnone s
      · exact hnone s
    split
    · exact .after fun u s1 _ => hrest s1 u
    · exact hrest s ()

/-- The value is a function, and unsafe as said. -/
def IsFunction (isUnsafe : Bool) (v : Value) : Prop :=
  v.isType = false ∧ ∃ sig, v.type = .function sig ∧ sig.isUnsafe = isUnsafe

/-- The callee is a signature, and unsafe as said. -/
def IsSignature (isUnsafe : Bool) (a : Option Callee) : Prop :=
  ∃ sig, a = some (.known sig) ∧ sig.isUnsafe = isUnsafe

theorem IsFunction.isVoid {isUnsafe : Bool} (h : IsFunction isUnsafe v) :
    v.type.isVoid = false := by
  obtain ⟨-, sig, hsig, -⟩ := h
  rw [hsig]
  rfl

theorem leads_callable {isUnsafe : Bool} (h : IsFunction isUnsafe v) :
    Leads G env s (callable v span) fun a _ => IsSignature isUnsafe a := by
  obtain ⟨htype, sig, hsig, hsafe⟩ := h
  unfold callable
  rw [htype, hsig]
  exact .pure ⟨sig, rfl, hsafe⟩

section Callees

variable (hp : p.IsTable) {name : Ident} {id : FuncId} (hid : p.lookup? name.name = some (.func id))

include hp hid

theorem leads_identValue {m : Nat} (hvar : c.block.bind (s.scopes.lookup? · name.name) = none)
    (hbuiltin : builtinFunc? name.name = none) :
    Leads .any (envAt p o m c) s (identValue name) fun v _ =>
      IsFunction (p.func id).decl.isUnsafe v := by
  refine .bind (gives_lookupVar name.name).leads fun found s1 _ hfound => ?_
  obtain ⟨rfl, -⟩ := hfound
  rw [show (envAt p o m c).context.block.bind (s.scopes.lookup? · name.name) = none from hvar]
  rw [hbuiltin]
  refine .package ?_
  rw [show (envAt p o m c).package.lookup? name.name = some (.func id) from hid]
  exact .pure ⟨rfl, (p.func id).sig, rfl, (hp.faithful id).isUnsafe⟩

omit hp in
theorem leads_templateOf (hvar : c.block.bind (s.scopes.lookup? · name.name) = none)
    (hbuiltin : builtinFunc? name.name = none) :
    Leads .any (envAt p o n c) s (templateOf? (.ident name)) fun a s' =>
      a = (if (p.func id).isGeneric then some id else none) ∧ s' = s := by
  refine .bind (gives_lookupVar name.name).leads fun found s1 _ hfound => ?_
  obtain ⟨rfl, rfl⟩ := hfound
  rw [show (envAt p o n c).context.block.bind (s1.scopes.lookup? · name.name) = none from hvar,
    hbuiltin]
  refine .package ?_
  rw [show (envAt p o n c).package.lookup? name.name = some (.func id) from hid]
  exact .pure ⟨rfl, rfl⟩

/-- The name of a function that is not generic has its signature. -/
theorem leads_callee_plain (hvar : c.block.bind (s.scopes.lookup? · name.name) = none)
    (hbuiltin : builtinFunc? name.name = none) (hgeneric : (p.func id).isGeneric = false) :
    Leads .any (envAt p o n c) s (callee (.ident name)) fun a _ =>
      IsSignature (p.func id).decl.isUnsafe a := by
  refine .bind (leads_templateOf hid hvar hbuiltin) fun a s1 _ ha => ?_
  rw [hgeneric] at ha
  obtain ⟨rfl, rfl⟩ := ha
  refine .state (.bind (M := fun v _ => IsFunction (p.func id).decl.isUnsafe v) ?_ ?_)
  · exact leads_evalAny fun m _ => leads_evalStep (leads_identValue hp hid hvar hbuiltin)
  · intro v s2 _ hv
    refine .state ?_
    rw [hv.isVoid]
    exact leads_callable hv

/-- A name with type arguments has the signature of its instance, or no type. -/
theorem leads_instanceValue {m : Nat} (ts : List Syntax.TypeExpr) (span : Span) :
    Leads .any (envAt p o m c) s (instanceValue name ts span) fun v _ =>
      v.type.isVoid = true ∨ IsFunction (p.func id).decl.isUnsafe v := by
  refine .package ?_
  rw [show (envAt p o m c).package.lookup? name.name = some (.func id) from hid]
  dsimp only
  split
  · exact .after fun _ _ _ => .pure (.inl rfl)
  refine .after fun types s1 _ => ?_
  split
  · exact .pure (.inl rfl)
  · refine .bind (leads_isUnsafe_instantiateSig hp id [] _) fun sig s2 _ hsig => ?_
    exact .after fun _ _ _ => .pure (.inr ⟨rfl, sig, rfl, hsig⟩)

/-- A callee with type arguments has a signature, or no type and an error. -/
theorem leads_callee_instance (ts : List Syntax.TypeExpr) (span : Span)
    (hloud : ¬FailsQuietly p o n c s (.generic name ts span)) :
    Leads .any (envAt p o n c) s (callee (.generic name ts span)) fun a s' =>
      IsSignature (p.func id).decl.isUnsafe a ∨ a = none ∧
        (∃ v s1, run p o n c (evalAny (.generic name ts span) none) s = some (v, s1) ∧
          v.type.isVoid = true) ∧ ∃ d ∈ s.added s', d.isError = true := by
  have hvalue : Leads .any (envAt p o n c) s (evalAny (.generic name ts span) none) fun v _ =>
      v.type.isVoid = true ∨ IsFunction (p.func id).decl.isUnsafe v :=
    leads_evalAny fun m _ => leads_evalStep (leads_instanceValue hp hid ts span)
  refine .bind (M := fun a s' => a = none ∧ s' = s) (.pure ⟨rfl, rfl⟩) fun a s' _ ha => ?_
  obtain ⟨rfl, rfl⟩ := ha
  refine .state (.bind hvalue fun v s1 hrun hv => .state ?_)
  have hle := (evalAny (.generic name ts span) none (envAt p o n c)).le hrun
  rcases hv with hvoid | hv
  · rw [hvoid, Bool.true_and]
    split
    next hgrown =>
      refine .pure (.inr ⟨rfl, ⟨v, s1, hrun, hvoid⟩, ?_⟩)
      refine Classical.byContradiction fun hnone => hloud ⟨v, s1, hrun, hvoid, ?_, fun d hd => ?_⟩
      · rw [State.added, ← List.length_pos_iff, List.length_drop, Array.length_toList]
        have := of_decide_eq_true hgrown
        omega
      · cases herror : d.isError with
        | false => rfl
        | true => exact absurd ⟨d, hd, herror⟩ hnone
    · unfold callable
      rw [signature?_of_isVoid hvoid]
      refine .after fun u s2 hreport => .pure (.inr ⟨rfl, ⟨v, s1, hrun, hvoid⟩, ?_⟩)
      have hadded := mem_added_report hreport
      exact ⟨_, State.mem_added_right hle ((report _ _ _).le hreport) hadded, rfl⟩
  · rw [hv.isVoid]
    exact (leads_callable hv).mono fun a _ h => .inl h

omit hid in
/-- A method that is not generic has the signature under the type arguments of
its owner. -/
theorem leads_callee_method {base : Expr} {s1 s2 : State} {owner : List Ty}
    (hbase : run p o n c (evalAny base none) s = some (v, s1))
    (hmember : run p o n c (member v name span) s1 = some (some (.method id owner), s2))
    (hgeneric : (p.func id).isGeneric = false) :
    Leads .any (envAt p o n c) s (callee (.field base name span)) fun a _ =>
      IsSignature (p.func id).decl.isUnsafe a := by
  refine .after fun v' s1' hbase' => ?_
  cases hbase.symm.trans hbase'
  have hvoid := leads_member_method (G := .any) v name span hmember trivial id owner rfl
  rw [if_neg (by simp [hvoid])]
  refine .after fun found s2' hmember' => ?_
  cases hmember.symm.trans hmember'
  refine .package ?_
  rw [show ((envAt p o n c).package.func id).isGeneric = false from hgeneric]
  refine .bind (leads_isUnsafe_instantiateSig hp id owner []) fun sig s3 _ hsig => ?_
  exact .after fun _ _ _ => .pure ⟨sig, rfl, hsig⟩

end Callees

/-! ## Calls -/

/-- Outside of unsafe code the operation is reported. -/
theorem leads_requireUnsafe (hfunc : c.func.isUnsafe = false)
    (hblocks : ∀ b ∈ c.block, s.scopes.inUnsafe b = false) :
    Leads .any (envAt p o n c) s (requireUnsafe span) fun _ s' =>
      ⟨.outsideUnsafe, span⟩ ∈ s.added s' := by
  have hsafe : Leads .any (envAt p o n c) s inUnsafe fun a s' => a = false ∧ s' = s := by
    refine .context ?_
    rw [show (envAt p o n c).context.func.isUnsafe = false from hfunc, if_neg Bool.false_ne_true]
    split
    next b hb => exact .state (.pure ⟨hblocks b hb, rfl⟩)
    · exact .pure ⟨rfl, rfl⟩
  refine .bind hsafe fun a s1 _ ha => ?_
  obtain ⟨rfl, rfl⟩ := ha
  exact fun _ _ hrun _ => mem_added_report hrun

section Calls

variable {f : Expr} {args : List Arg} {span : Span} {E : State → Prop}

/-- The call of a signature that is unsafe is reported at the place of the call. -/
theorem leads_call (hfunc : c.func.isUnsafe = false)
    (hblocks : ∀ b ∈ c.block, s.scopes.inUnsafe b = false)
    (hcallee : Leads .any (envAt p o n c) s (callee f) fun a s' =>
      IsSignature true a ∨ a = none ∧ E s') :
    Leads .any (envAt p o n c) s (call f args span) fun _ s' =>
      ⟨.outsideUnsafe, span⟩ ∈ s.added s' ∨ E s' := by
  refine .bind hcallee fun a s1 hrun ha => ?_
  rcases ha with ⟨sig, rfl, hsig⟩ | ⟨rfl, herror⟩
  · have hle := (callee f (envAt p o n c)).le hrun
    have hbeside : s.Beside s1 :=
      beside_of_asks (asks_callee allows_any trivial (fun _ _ => trivial)
        (f.within_of_forall fun _ => trivial)) hrun
    have hblocks1 : ∀ b ∈ c.block, s1.scopes.inUnsafe b = false := fun b hb =>
      (hbeside.inUnsafe b).trans (hblocks b hb)
    dsimp only
    rw [hsig]
    refine .bind (leads_requireUnsafe hfunc hblocks1) fun _ s2 hreport hadded => ?_
    intro v s' hrest _
    have hle2 := (requireUnsafe span (envAt p o n c)).le hreport
    have hle' := ((callArgs sig args span >>= fun _ => pure (Value.ofType sig.ret)) _).le hrest
    exact .inl (State.mem_added_right hle (hle2.trans hle') (State.mem_added_left hle' hadded))
  · exact .pure (.inr herror)

end Calls

/-- Outside of unsafe code the call of a function that is declared unsafe, and
whose type arguments are not inferred, is reported at the place of the call; or
the callee has no type and there is an error, unless all that it reports only
informs. -/
theorem unsafe_call_reported {f : Expr} {id : FuncId} {args : List Arg} {span : Span}
    {hint : Option Ty} {v : Value} {s' : State} (hp : p.IsTable)
    (hfunc : c.func.isUnsafe = false) (hblocks : ∀ b ∈ c.block, s.scopes.inUnsafe b = false)
    (hnames : Names p o n c s f id) (hflag : (p.func id).decl.isUnsafe = true)
    (hwritten : (p.func id).isGeneric = true → ∃ name ts span, f = .generic name ts span)
    (hloud : ¬FailsQuietly p o n c s f)
    (hrun : run p o (n + 1) c (evalAny (.call f args span) hint) s = some (v, s')) :
    ⟨.outsideUnsafe, span⟩ ∈ s.added s' ∨
      (∃ v s₁, run p o n c (evalAny f none) s = some (v, s₁) ∧ v.type.isVoid = true) ∧
        ∃ d ∈ s.added s', d.isError = true := by
  have hcallee : Leads .any (envAt p o n c) s (callee f) fun a s' => IsSignature true a ∨ a = none ∧
      (∃ v s₁, run p o n c (evalAny f none) s = some (v, s₁) ∧ v.type.isVoid = true) ∧
        ∃ d ∈ s.added s', d.isError = true := by
    have hplain : (∀ name ts span, f ≠ .generic name ts span) → (p.func id).isGeneric = false := by
      intro hf
      refine Bool.eq_false_iff.mpr fun h => ?_
      obtain ⟨name, ts, span, rfl⟩ := hwritten h
      exact hf name ts span rfl
    cases hnames with
    | plain hvar hbuiltin hid =>
      have hgeneric := hplain fun _ _ _ h => by cases h
      have h := leads_callee_plain (o := o) (n := n) hp hid hvar hbuiltin hgeneric
      rw [hflag] at h
      exact h.mono fun _ _ h => .inl h
    | applied hid =>
      have h := leads_callee_instance hp hid _ _ hloud
      rw [hflag] at h
      exact h
    | method hbase hmember =>
      have hgeneric := hplain fun _ _ _ h => by cases h
      have h := leads_callee_method hp hbase hmember hgeneric
      rw [hflag] at h
      exact h.mono fun _ _ h => .inl h
  obtain ⟨w, s₁, hcall, hrest⟩ := run_bind.mp hrun
  have hle := ((annotate _ w >>= fun _ => pure w) (envAt p o n c)).le hrest
  rcases leads_call hfunc hblocks hcallee hcall trivial with h | ⟨hvoid, d, hd, herror⟩
  · exact .inl (State.mem_added_left hle h)
  · exact .inr ⟨hvoid, d, State.mem_added_left hle hd, herror⟩

/-- An unsafe function with a type parameter, in the table of its source. -/
def unsafeTemplate : Package :=
  (Package.collect ((Report.parseAll [⟨"main.jn", "unsafe fn f[T](x: T) { }"⟩]).map
    Report.programOf)).package

/-- The function with a written type argument. -/
def unsafeInstance : Expr := .generic ⟨"f", default⟩ [.named ⟨"int", default⟩ [] default] default

set_option maxRecDepth 100000 in
/-- In the block of a safe function the call with a written type argument is
reported. -/
theorem unsafe_call_reported_instance : ∃ v s',
    run unsafeTemplate {} 3 inOuterLoop (evalAny
      (.call unsafeInstance [⟨none, .literal (.int 1) default, default⟩] default) none) freshBody =
        some (v, s') ∧ ⟨.outsideUnsafe, default⟩ ∈ freshBody.added s' := by
  have hcall : (run unsafeTemplate {} 3 inOuterLoop (evalAny
      (.call unsafeInstance [⟨none, .literal (.int 1) default, default⟩] default) none)
      freshBody).isSome = true := by decide +kernel
  have hcallee : (run unsafeTemplate {} 2 inOuterLoop (evalAny unsafeInstance none) freshBody).all
      (!·.1.type.isVoid) = true := by decide +kernel
  have hname : unsafeTemplate.lookup? "f" = some (.func 0) := by decide +kernel
  have hflag : (unsafeTemplate.func 0).decl.isUnsafe = true := by decide +kernel
  have htyped : ∀ v s₁, run unsafeTemplate {} 2 inOuterLoop (evalAny unsafeInstance none) freshBody =
      some (v, s₁) → v.type.isVoid = false := by
    intro v s₁ h
    rw [h] at hcallee
    simpa using hcallee
  obtain ⟨⟨v, s'⟩, hrun⟩ := Option.isSome_iff_exists.mp hcall
  refine ⟨v, s', hrun, ?_⟩
  have hguard := unsafe_call_reported (p := unsafeTemplate) (.collect _) rfl (fun b hb => ?_)
    (.applied hname) hflag (fun _ => ⟨_, _, _, rfl⟩) ?_ hrun
  · refine hguard.resolve_right ?_
    rintro ⟨⟨w, s₁, h, hvoid⟩, -⟩
    simp [htyped w s₁ h] at hvoid
  · cases hb
    decide +kernel
  · rintro ⟨w, s₁, h, hvoid, -⟩
    simp [htyped w s₁ h] at hvoid

/-- A safe function calls an unsafe one whose type argument is inferred. -/
def inferredUnsafe : Source where
  path := "main.jn"
  text := "unsafe fn f[T](x: T) { }\nfn main() { f(1) }"

/-- A safe function calls an unsafe one with a type argument that has no type:
the size of the array is a call without a result, which only informs. -/
def sizelessUnsafe : Source where
  path := "main.jn"
  text := "fn g[T](a: T, b: T) { }\nunsafe fn f[T](x: T) { }\n" ++
    "fn main(a: any) { f::[[g(a, 2)]int](nil) }"

set_option maxRecDepth 100000 in
theorem inferredUnsafe_unreported :
    (∃ r, Report.check {} [inferredUnsafe] = some r ∧ r.hasErrors = false) ∧
      ∃ r, Report.check {} [sizelessUnsafe] = some r ∧ r.hasErrors = false := by
  have hinferred : (Report.check {} [inferredUnsafe]).any (!·.hasErrors) = true := by decide +kernel
  have hsizeless : (Report.check {} [sizelessUnsafe]).any (!·.hasErrors) = true := by decide +kernel
  obtain ⟨r, hr, hclean⟩ := (Option.any_eq_true _ _).mp hinferred
  obtain ⟨r', hr', hclean'⟩ := (Option.any_eq_true _ _).mp hsizeless
  exact ⟨⟨r, hr, by simpa using hclean⟩, r', hr', by simpa using hclean'⟩

end JaneCheck.Check
