import JaneCheck.Proofs.Bodies
import JaneCheck.Proofs.Levels.Eval

/-!
# What statements ask for

Apart from the variables that it declares and the blocks that it opens, a statement asks
for types and values alone. The types of the variables are those of values or of type
expressions.
-/

namespace JaneCheck.Check

open Demand
open Syntax (Expr Stmt)

variable {p : Package} {F : Realm p} {c : Context} {span : Span} {v : Value} {t : Ty}
  {e target : Expr} {targets values : List Expr}

/-! ## Values of declarations -/

theorem asks_localType (hspan : F.span span) (hv : F.Covers v.type) :
    Asks F c (localType v span) := by
  refine .bind (asks_inferredType hspan hv) fun t ht => ?_
  split
  · exact .then (.discard (asks_assign _ _ hspan)) fun _ => .pure ht
  · exact .pure ht

/-- Whether the evaluation failed is read off the states before and after it. -/
theorem declaredValue_eq (e : Expr) (hint : Option Ty) (env : Env) : declaredValue e hint env = (do
    let s ← state
    let v ← evalAny e hint
    let s' ← state
    if v.isType then refuse .typeAsValue e.span
    else return if v.type.isVoid && (s.voidReads < s'.voidReads ||
      (s'.diags.extract s.diags.size s'.diags.size).any (·.isError)) then none
      else some v : Check (Option Value)) env := by
  refine Step.ext fun s => ?_
  refine congrArg (fun k => ((evalAny e hint env).bind k).run s) (funext fun v => ?_)
  beta_reduce
  cases v.isType <;> rfl

theorem asks_declaredValue {hint : Option Ty} (he : F.asks c (.expr e))
    (hh : Covered.By F.toDemand hint) : Asks F c (declaredValue e hint) := by
  refine .congr (declaredValue_eq e hint) (.since (g := fun out v =>
    if v.isType then refuse .typeAsValue e.span else pure (if out.failed v then none else some v))
    (.evalAny he hh) (fun out v hv => ?_) fun v h => ?_)
  · split
    · exact asks_refuse (F.expr he).span rfl covered_none
    · exact .pure (covered_unless hv)
  · rw [h.failed]

theorem asks_initializedType {declared : Option Ty} {valueSpan : Span} (mutable : Bool)
    (hvalue : F.span valueSpan) (hspan : F.span span) (hd : Covered.By F.toDemand declared)
    (hv : F.Covers v.type) : Asks F c (initializedType declared mutable v valueSpan span) := by
  unfold initializedType
  split
  · exact asks_localType hvalue hv
  next t =>
    have ht : F.Covers (if t.isArray && t.size?.isNone && v.type.isArray then v.type else t) := by
      split
      · exact hv
      · exact hd t rfl
    refine .then (asks_assign _ _ hvalue) fun ok => ?_
    dsimp only
    split
    · exact .then (asks_checkMutability _ _ _ hspan) fun _ => .pure ht
    · exact .pure ht

theorem asks_constantOf (v : Value) (t : Ty) (hspan : F.span span) :
    Asks F c (constantOf v t span) := by
  unfold constantOf
  split
  · exact asks_pinAll _ _
  · exact asks_refuse hspan rfl covered_none

theorem asks_evalAllChecked {es : List Expr} (hes : ∀ e ∈ es, F.asks c (.expr e)) :
    Asks F c (evalAllChecked es) := by
  induction es with
  | nil => exact .pure covered_nil
  | cons e es ih =>
    refine .bind (asks_evalChecked (hes e List.mem_cons_self) covered_none) fun v hv => ?_
    refine .bind (ih fun f hf => hes f (List.mem_cons_of_mem _ hf)) fun vs hvs => ?_
    exact .pure (covered_cons hv hvs)

theorem asks_multiValues (targets : Nat) (hvs : ∀ e ∈ values, F.asks c (.expr e)) :
    Asks F c (multiValues targets values) := by
  unfold multiValues
  split
  next e =>
    split
    · refine .bind (asks_evalChecked (hvs e (by simp)) covered_none) fun o ho => ?_
      split
      next v =>
        have hv : F.Covers v.type := ho v rfl
        split
        · refine .pure fun o ho => ?_
          obtain ⟨t, ht, rfl⟩ := List.mem_map.mp ho
          exact covered_some (hv.components t ht)
        · exact .pure (covered_cons (covered_some hv) covered_nil)
      · refine .pure fun o ho => ?_
        rw [List.eq_of_mem_replicate ho]
        exact covered_none
    · exact asks_evalAllChecked hvs
  · exact asks_evalAllChecked hvs

theorem asks_checkCounts (targets values : Nat) (hspan : F.span span) :
    Asks F c (checkCounts targets values span) := by
  unfold checkCounts
  split
  · exact .report hspan rfl (.pure trivial)
  split
  · exact .report hspan rfl (.pure trivial)
  · exact .pure trivial

theorem place_valueSpan {default : Span} (hv : ∀ e ∈ values, F.asks c (.expr e))
    (hd : F.span default) (i : Nat) : F.span (valueSpan values i default) := by
  unfold valueSpan
  cases h : values[i]? <|> values.head? with
  | none => exact hd
  | some e =>
    refine (F.expr (hv e ?_)).span
    cases hi : values[i]? with
    | none =>
      rw [hi] at h
      exact List.mem_of_head? h
    | some e' =>
      rw [hi] at h
      cases h
      exact List.mem_of_getElem? hi

/-! ## Assignments -/

theorem asks_checkLvalue (v : Value) (hspan : F.span span) : Asks F c (checkLvalue v span) := by
  unfold checkLvalue
  split
  · exact .report hspan rfl (.pure trivial)
  split
  · exact .report hspan rfl (.pure trivial)
  split
  · exact .report hspan rfl (.pure trivial)
  · exact .pure trivial

theorem asks_store (t v : Value) (ht : F.asks c (.expr target)) (hspan : F.span span) :
    Asks F c (store target t v span) := by
  refine .then (asks_checkLvalue _ (F.expr ht).span) fun ok => ?_
  split
  · refine .then (asks_assign _ _ hspan) fun ok => ?_
    split
    · exact asks_checkMutability _ _ _ hspan
    · exact .pure trivial
  · exact .pure trivial

theorem asks_assignOne {value : Expr} (ht : F.asks c (.expr target)) (hv : F.asks c (.expr value)) :
    Asks F c (assignOne target value) := by
  have hdiscard : Asks F c (discard (eval value none)) := .discard (asks_eval hv covered_none)
  unfold assignOne
  split
  · exact hdiscard
  refine .bind (asks_evalChecked ht covered_none) fun o ho => ?_
  split
  · exact hdiscard
  next t =>
    refine .then (asks_evalChecked hv (covered_some (ho t rfl))) fun o => ?_
    split
    · exact asks_store _ _ ht (F.expr hv).span
    · exact .pure trivial

theorem asks_assignEach (evaluated : List (Option Value)) (i : Nat)
    (hv : ∀ e ∈ values, F.asks c (.expr e)) (hspan : F.span span)
    (ht : ∀ e ∈ targets, F.asks c (.expr e)) :
    Asks F c (assignEach values span targets evaluated i) := by
  induction targets generalizing evaluated i with
  | nil => exact .pure trivial
  | cons target targets ih =>
    cases evaluated with
    | nil => exact .pure trivial
    | cons value rest =>
      have htarget := ht target List.mem_cons_self
      have hrest := ih rest (i + 1) fun e he => ht e (List.mem_cons_of_mem _ he)
      unfold assignEach
      split
      · refine .then (asks_evalChecked htarget covered_none) fun o => ?_
        split
        · exact .then (asks_store _ _ htarget (place_valueSpan hv hspan i)) fun _ => hrest
        · exact hrest
      · exact hrest

theorem asks_checkAssign (hspan : F.span span) (ht : ∀ e ∈ targets, F.asks c (.expr e))
    (hv : ∀ e ∈ values, F.asks c (.expr e)) : Asks F c (checkAssign targets values span) := by
  unfold checkAssign
  split
  · exact asks_assignOne (ht _ (by simp)) (hv _ (by simp))
  · refine .then (asks_multiValues _ hv) fun evaluated => ?_
    refine .then (asks_checkCounts _ _ hspan) fun ok => ?_
    split
    · exact asks_assignEach _ 0 hv hspan ht
    · exact .pure trivial

theorem asks_checkCompound (op : Syntax.BinOp) (hspan : F.span span)
    (ht : ∀ e ∈ targets, F.asks c (.expr e)) (hv : ∀ e ∈ values, F.asks c (.expr e)) :
    Asks F c (checkCompound targets op values span) := by
  refine .then (asks_checkCounts _ _ hspan) fun ok => ?_
  split
  · split
    next target _ value _ =>
      have htarget := ht target (by simp)
      have hvalue := hv value (by simp)
      refine .bind (asks_evalChecked htarget covered_none) fun o ho => ?_
      split
      next t =>
        have htt : F.Covers t.type := ho t rfl
        refine .bind (asks_evalChecked hvalue (covered_some htt)) fun o' ho' => ?_
        split
        next v =>
          refine .then (asks_checkLvalue _ (F.expr htarget).span) fun ok => ?_
          split
          · refine .then (asks_solve op hspan htt (ho' v rfl)) fun r => ?_
            split
            · exact .discard (asks_assign _ _ (F.expr hvalue).span)
            · exact .pure trivial
          · exact .pure trivial
        · exact .pure trivial
      · exact .pure trivial
    · exact .pure trivial
  · exact .pure trivial

theorem asks_checkStep (increment : Bool) (hspan : F.span span) (ht : F.asks c (.expr target)) :
    Asks F c (checkStep target increment span) := by
  refine .then (asks_evalChecked ht covered_none) fun o => ?_
  split
  · refine .then (asks_checkLvalue _ (F.expr ht).span) fun ok => ?_
    split
    · split
      · exact .pure trivial
      split
      · exact asks_requireUnsafe hspan
      · exact asks_report hspan rfl
    · exact .pure trivial
  · exact .pure trivial

/-! ## Returns -/

theorem asks_returnEach {es : List Expr} {ts : List Ty} (hes : ∀ e ∈ es, F.asks c (.expr e))
    (hts : ∀ t ∈ ts, F.Covers t) : Asks F c (returnEach es ts) := by
  induction es generalizing ts with
  | nil => exact .pure trivial
  | cons e es ih =>
    obtain ⟨he, hrest⟩ := List.forall_mem_cons.mp hes
    cases ts with
    | nil => exact .then (.discard (asks_eval he covered_none)) fun _ => ih hrest hts
    | cons t ts =>
      obtain ⟨ht, hts⟩ := List.forall_mem_cons.mp hts
      have hnext : Asks F c (returnEach es ts) := ih hrest hts
      have hspan := (F.expr he).span
      refine .then (asks_evalChecked he (covered_some ht)) fun o => ?_
      split
      · refine .then (asks_assign _ _ hspan) fun fits => ?_
        split
        · split
          · exact .report hspan rfl hnext
          · exact hnext
        · exact hnext
      · exact hnext

theorem covers_resultTypes {D : Demand} {ret : Ty} (h : D.Covers ret) :
    ∀ t ∈ resultTypes ret, D.Covers t := by
  unfold resultTypes
  split
  · exact h.components
  · intro t ht
    rw [List.mem_singleton.mp ht]
    exact h

theorem asks_returnTuple (ret : Ty) (hspan : F.span span) (he : F.asks c (.expr e)) :
    Asks F c (returnTuple ret e span) := by
  refine .then (asks_evalChecked he covered_none) fun o => ?_
  split
  · split
    · exact .discard (asks_assign _ _ (F.expr he).span)
    · exact asks_report hspan rfl
  · exact .pure trivial

theorem asks_checkReturn (hcontext : F.asks c .context) (hspan : F.span span)
    (hv : ∀ e ∈ values, F.asks c (.expr e)) : Asks F c (checkReturn values span) := by
  refine .context hcontext fun hc => ?_
  dsimp only
  split
  · split
    · exact asks_report hspan rfl
    · exact .pure trivial
  next first rest =>
    split
    · exact .report hspan rfl (asks_returnEach hv (List.forall_mem_nil _))
    split
    · exact asks_returnTuple _ hspan (hv first List.mem_cons_self)
    have hreturn := asks_returnEach hv (covers_resultTypes hc.ret)
    split
    · exact .report hspan rfl hreturn
    split
    · exact .report hspan rfl hreturn
    · exact hreturn

/-- A statement that evaluates expressions and does nothing else. -/
theorem asks_checkStmt {x : Stmt} (hx : x.evaluates = true) (label : Option String) :
    Asks (.any p) c (checkStmt x label) := by
  match x with
  | .assign targets none values span =>
    exact asks_checkAssign trivial (fun _ _ => trivial) fun _ _ => trivial
  | .assign targets (some op) values span =>
    exact asks_checkCompound op trivial (fun _ _ => trivial) fun _ _ => trivial
  | .step target increment span => exact asks_checkStep increment trivial trivial
  | .expr e => exact .discard (asks_eval trivial covered_none)
  | .ret values span => exact asks_checkReturn trivial trivial fun _ _ => trivial

/-! ## Branches and loops -/

theorem asks_checkCondition {cond : Expr} {q : Problem} (hq : q.ofJump = false)
    (hc : F.asks c (.expr cond)) : Asks F c (checkCondition cond q) := by
  refine .then (asks_evalChecked hc covered_none) fun v => ?_
  split
  · split
    · exact asks_report (F.expr hc).span hq
    · exact .pure trivial
  · exact .pure trivial

theorem covers_two {a b : Ty} (ha : F.Covers a) (hb : F.Covers b) : Covered.By F.toDemand [a, b] :=
  covered_cons ha (covered_cons hb covered_nil)

theorem asks_loopTypes (hspan : F.span span) (ht : F.Covers t) : Asks F c (loopTypes t span) := by
  unfold loopTypes
  split
  · exact .pure (covers_two (covers_base _) (covers_base _))
  split
  · exact .pure (covers_two (covers_base _) (covers_getD ht.component))
  split
  · exact .pure ht.components
  · exact .report hspan rfl (.pure (covers_two covers_void covers_void))

theorem asks_subject {subject : Option Expr} (hs : ∀ e ∈ subject, F.asks c (.expr e)) :
    Asks F c (subject.bindM (evalChecked · none)) := by
  cases subject with
  | none => exact .pure covered_none
  | some e => exact asks_evalChecked (hs e rfl) covered_none

theorem asks_checkCaseExprs {subject : Option Value} {exprs : List Expr} (hasSubject : Bool)
    (hs : Covered.By F.toDemand subject) (he : ∀ e ∈ exprs, F.asks c (.expr e)) :
    Asks F c (checkCaseExprs hasSubject subject exprs) := by
  have hhint : Covered.By F.toDemand (subject.map (·.type)) := by
    intro t ht
    obtain ⟨v, hv, rfl⟩ := Option.map_eq_some_iff.mp ht
    exact hs v hv
  refine .listForM fun e hmem => .bind (asks_evalChecked (he e hmem) hhint) fun o ho => ?_
  have hspan := (F.expr (he e hmem)).span
  split
  next v =>
    split
    next s => exact .discard (asks_solve _ hspan (hs s rfl) (ho v rfl))
    · split
      · exact .discard (asks_assign _ _ hspan)
      · exact .pure trivial
  · exact .pure trivial

theorem asks_loopVars {kind : Syntax.LoopKind} (hk : kind.Within F.span)
    (hall : ∀ e : Expr, e.Within F.span → F.asks c (.expr e)) :
    AsksFor F c (loopVars kind) fun vars => ∀ v ∈ vars, F.span v.1.span ∧ F.Covers v.2 := by
  cases hk with
  | forever => exact .pure nofun
  | whileTrue hc => exact .then (asks_checkCondition rfl (hall _ hc)) fun _ => .pure nofun
  | @forEach vars e he hvars =>
    have hzip : ∀ types : List Ty, Covered.By F.toDemand types →
        AsksFor F c (pure (vars.zip types) : Check (List (Syntax.Ident × Ty)))
          fun vars => ∀ v ∈ vars, F.span v.1.span ∧ F.Covers v.2 := fun types ht =>
      .pure fun b hb => ⟨hvars b.1 (List.of_mem_zip hb).1, ht b.2 (List.of_mem_zip hb).2⟩
    refine .then (.optionForM fun v hv => asks_report (hvars v (List.mem_of_getElem? hv)) rfl)
      fun _ => .bind (asks_evalChecked (hall e he) covered_none) fun o ho => ?_
    split
    next v => exact .bind (asks_loopTypes he.span (ho v rfl)) hzip
    · exact .bind (.pure (covers_two covers_void covers_void)) hzip

theorem asks_loopVars_any (kind : Syntax.LoopKind) :
    AsksFor (.any p) c (loopVars kind) fun _ => True := by
  have hk : kind.Within (Realm.any p).span := by
    cases kind with
    | forever => exact .forever
    | whileTrue e => exact .whileTrue (e.within_of_forall fun _ => trivial)
    | forEach vars e => exact .forEach (e.within_of_forall fun _ => trivial) fun _ _ => trivial
  exact .mono (asks_loopVars hk fun _ _ => trivial) fun _ _ => trivial

end JaneCheck.Check
