import JaneCheck.Proofs.Traces

/-!
# Regimes

What holds of the checks of statements and definitions is proved in one walk through
them. A `Discipline` is a relation of states that runs are to keep to. A `Regime` is a
discipline with a law for each thing that such a check does: asking for types and
values, reporting, opening a block, declaring a name, noting a label or a `goto`. The
checks of statements obey every regime, as far as it admits what they do.
-/

namespace JaneCheck.Check

open Demand
open Syntax (Expr Stmt TypeExpr)

/-! ## Disciplines -/

/-- From a state with `starts` a run under the guard is to take a `course`. -/
structure Discipline (p : Package) (o : Options) where
  guard : Guard
  starts : Context → State → Prop
  course : Context → State → State → Prop
  refl {c s} : starts c s → course c s s
  trans {c s s' s''} : course c s s' → course c s' s'' → s.Le s' → s'.Le s'' → course c s s''
  next {c s s'} : starts c s → course c s s' → starts c s'

variable {p : Package} {o : Options}

namespace Discipline

/-- Every run of the check takes the course, and gives a result with `R`. -/
def Obeys (K : Discipline p o) (x : Check α) (R : α → Prop) : Prop :=
  ∀ n c s, K.starts c s → Leads K.guard (envAt p o n c) s x fun a s' => K.course c s s' ∧ R a

section Rules

variable {K : Discipline p o} {M : α → Prop} {R : β → Prop}

theorem Obeys.pure {a : α} (h : M a) : K.Obeys (pure a) M :=
  fun _ _ _ hs => .pure ⟨K.refl hs, h⟩

theorem Obeys.bind {x : Check α} {f : α → Check β} (hx : K.Obeys x M)
    (hf : ∀ a, M a → K.Obeys (f a) R) : K.Obeys (x >>= f) R := by
  intro n c s hs
  refine .bind (hx n c s hs) fun a s1 hrun h => ?_
  intro b s' hrun' hg
  obtain ⟨hcourse, hb⟩ := hf a h.2 n c s1 (K.next hs h.1) hrun' hg
  exact ⟨K.trans h.1 hcourse (Step.le _ hrun) (Step.le _ hrun'), hb⟩

theorem Obeys.then {x : Check α} {f : α → Check β} (hx : K.Obeys x M)
    (hf : ∀ a, K.Obeys (f a) R) : K.Obeys (x >>= f) R :=
  .bind hx fun a _ => hf a

theorem Obeys.mono {x : Check α} {N : α → Prop} (hx : K.Obeys x M) (h : ∀ a, M a → N a) :
    K.Obeys x N :=
  fun n c s hs => (hx n c s hs).mono fun a _ h' => ⟨h'.1, h a h'.2⟩

theorem Obeys.map {x : Check α} {f : α → β} (hx : K.Obeys x M) (hf : ∀ a, M a → R (f a)) :
    K.Obeys (f <$> x) R :=
  .bind hx fun a ha => .pure (hf a ha)

theorem Obeys.discard {x : Check α} (hx : K.Obeys x M) : K.Obeys (discard x) fun _ => True :=
  .map hx fun _ _ => trivial

theorem Obeys.package {f : Package → Check β} (hf : K.Obeys (f p) R) : K.Obeys (package >>= f) R :=
  hf

theorem Obeys.options {f : Options → Check β} (hf : K.Obeys (f o) R) : K.Obeys (options >>= f) R :=
  hf

theorem Obeys.context {f : Context → Check β} (hf : ∀ c, K.Obeys (f c) R) :
    K.Obeys (context >>= f) R :=
  fun n c s hs => .context (hf c n c s hs)

theorem Obeys.state {f : State → Check β} (hf : ∀ c s, K.starts c s → K.Obeys (f s) R) :
    K.Obeys (state >>= f) R :=
  fun n c s hs => .state (hf c s hs n c s hs)

theorem Obeys.listForM {as : List α} {f : α → Check Unit}
    (h : ∀ a ∈ as, K.Obeys (f a) fun _ => True) : K.Obeys (as.forM f) fun _ => True := by
  induction as with
  | nil => exact .pure trivial
  | cons a as ih => exact .then (h a (by simp)) fun _ => ih fun b hb => h b (by simp [hb])

theorem Obeys.optionForM {a : Option α} {f : α → Check Unit}
    (h : ∀ b ∈ a, K.Obeys (f b) fun _ => True) : K.Obeys (a.forM f) fun _ => True := by
  cases a with
  | none => exact .pure trivial
  | some b => exact h b rfl

theorem Obeys.forEachCheck {f : α → Check β} {as : List α} {R : α → β → Prop}
    (h : ∀ a ∈ as, K.Obeys (f a) (R a)) : K.Obeys (Package.forEachCheck f as) fun bs =>
      bs.length = as.length ∧ ∀ e ∈ as.zip bs, R e.1 e.2 := by
  induction as with
  | nil => exact .pure (by simp)
  | cons a as ih =>
    refine .bind (h a (by simp)) fun b hb => ?_
    refine .bind (ih fun a' h' => h a' (by simp [h'])) fun bs hbs => ?_
    exact .pure ⟨by simp [hbs.1], List.forall_mem_cons.mpr ⟨hb, hbs.2⟩⟩

end Rules

end Discipline

/-! ## Regimes -/

/-- The name and the place of each label. -/
def State.marks (s : State) : List (String × Place) := s.labels.map fun l => (l.name, l.place)

theorem State.marks_useLabel (s : State) (name : String) :
    State.marks { s with labels := s.labels.map fun l =>
      if l.name == name then { l with used := true } else l } = s.marks := by
  simp only [State.marks, List.map_map]
  refine List.map_congr_left fun l _ => ?_
  simp only [Function.comp_apply]
  split <;> rfl

/-- The context of what is checked in a block. -/
def Context.inside (c : Context) (b : BlockId) : Context := { c with block := some b, index := 0 }

/-- A discipline for checks that ask for what lies at the places of a realm. `declares`,
`labels` and `jumps` say whether it admits new variables, new labels and gotos, and
problems of jumps. -/
structure Regime (p : Package) (o : Options) extends Discipline p o, Realm p where
  declares : Prop
  labels : Prop
  jumps : Prop
  admits {c x} : x.Within span → asks c x
  allows (c) : Allows toRealm c
  known {c s} : starts c s → toDemand.CoveredState s
  asked {α : Type} {n c s} {x : Check α} {R : α → Prop} : AsksFor toRealm c x R → starts c s →
    Leads guard (envAt p o n c) s x fun a s' => course c s s' ∧ R a
  /-- A field of an instance is resolved without a report. -/
  quiet {n c s id} {field : Syntax.Field} : field ∈ (p.struct id).decl.fields → starts c s →
    Leads guard (envAt p o n c) s (quietly (resolveOrVoid field.type)) fun u s' =>
      course c s s' ∧ toDemand.Covers u
  report {c s q place} : starts c s → q.ofJump = false ∨ jumps → span place →
    course c s { s with diags := s.diags.push ⟨q, place⟩ }
  /-- Without `labels` nothing but the use of labels changes. -/
  mark {c s ls gs} : starts c s →
    labels ∨ State.marks { s with labels := ls } = s.marks ∧ gs = s.gotos →
    (∀ l ∈ ls, span l.span) → (∀ g ∈ gs, span g.span) →
    course c s { s with labels := ls, gotos := gs }
  record {c s b} : starts c s → c.block = some b → course c s { s with
    scopes := s.scopes.modifyBlock b fun block => { block with decls := c.index :: block.decls } }
  addAlias {c s b} {a : LocalAlias} : starts c s → c.block = some b →
    a.name ∉ s.scopes.aliasNames b ∧ a.name ∉ s.scopes.varNames b → Covered.By toDemand a →
    course c s { s with scopes := s.scopes.addAlias b a }
  declare {c s b id v scopes} : declares → starts c s → c.block = some b →
    s.scopes.declare b v = .ok (id, scopes) → Covered.By toDemand v → course c s { s with scopes }
  within {c c' s} : c'.block = c.block → c'.reportGlobals = c.reportGlobals →
    (toDemand.CoveredContext c → toDemand.CoveredContext c') → starts c s →
    starts c' s ∧ ∀ s', course c' s s' → course c s s'
  enter {c s} (isUnsafe : Bool) : starts c s →
    let entered := s.scopes.enter c.block c.index isUnsafe
    starts (c.inside entered.1) { s with scopes := entered.2 } ∧
      ∀ s', course (c.inside entered.1) { s with scopes := entered.2 } s' → course c s s'

/-- The check obeys the regime, and the types in its result are covered. -/
abbrev Regime.Keeps [Covered α] (K : Regime p o) (x : Check α) : Prop :=
  K.Obeys x (Covered.By K.toDemand)

variable {K : Regime p o} {span : Span} {t : Ty} {e : Expr} {values : List Expr}

theorem obeys_of_asks {x : Check α} {R : α → Prop} (h : ∀ c, AsksFor K.toRealm c x R) :
    K.Obeys x R :=
  fun _ c _ hs => K.asked (h c) hs

theorem obeys_inContext {f : Excursion} {x : Check α} {R : α → Prop}
    (hblock : ∀ c, (f c).block = c.block) (hreport : ∀ c, (f c).reportGlobals = c.reportGlobals)
    (hf : ∀ c, K.CoveredContext c → K.CoveredContext (f c)) (hx : K.Obeys x R) :
    K.Obeys (inContext f x) R := by
  intro n c s hs
  obtain ⟨hstart, hback⟩ := K.within (hblock c) (hreport c) (hf c) hs
  exact .inContext ((hx n (f c) s hstart).mono fun _ s' h => ⟨hback s' h.1, h.2⟩)

/-! ## Blocks and jumps -/

theorem keeps_report {q : Problem} (hq : q.ofJump = false ∨ K.jumps) (hspan : K.span span) :
    K.Keeps (report q span) :=
  fun _ _ _ hs => leads_update ⟨K.report hs hq hspan, trivial⟩

theorem obeys_report {q : Problem} {f : Unit → Check α} {R : α → Prop} (hq : q.ofJump = false)
    (hspan : K.span span) (hf : K.Obeys (f ()) R) : K.Obeys (report q span >>= f) R :=
  .then (keeps_report (.inl hq) hspan) fun _ => hf

theorem keeps_reportUnused (b : BlockId) : K.Keeps (reportUnused b) := by
  refine .options ?_
  split
  · exact .state fun c s hs => .listForM fun u hu =>
      keeps_report (.inl rfl) ((K.known hs).unused b u hu)
  · exact .pure trivial

theorem obeys_withBlock {x : BlockId → Check α} {R : α → Prop} (isUnsafe : Bool)
    (hx : ∀ b, K.Obeys (x b) R) : K.Obeys (withBlock isUnsafe x) R := by
  intro n c s hs
  obtain ⟨hstart, hback⟩ := K.enter isUnsafe hs
  refine .context (.state ?_)
  refine .bind
    (M := fun _ s' => s' = { s with scopes := (s.scopes.enter c.block c.index isUnsafe).2 })
    (leads_update rfl) fun _ s1 hrun1 henter => ?_
  subst henter
  refine .bind (.inContext (hx _ n _ _ hstart)) fun a s2 hrun2 h => ?_
  have hcourse := hback s2 h.1
  refine .bind (keeps_reportUnused _ n c s2 (K.next hs hcourse)) fun _ s3 hrun3 hunused =>
    .pure ⟨?_, h.2⟩
  exact K.trans hcourse hunused.1 (.trans (Step.le _ hrun1) (Step.le _ hrun2)) (Step.le _ hrun3)

theorem keeps_declare {v : Var} (hd : K.declares) (hv : Covered.By K.toDemand v) :
    K.Keeps (declare v) := by
  intro n c s hs _ s' hrun _
  refine ⟨?_, trivial⟩
  cases (gives_declare v).of_run hrun with
  | skipped => exact K.refl hs
  | taken hb h => exact K.report hs (.inl rfl) hv.2
  | added hb h => exact K.declare hd hs hb h hv

theorem keeps_mark {f : State → State} {le : ∀ s : State, s.Le (f s)} (hl : K.labels)
    (hf : ∀ s, f s = { s with labels := (f s).labels, gotos := (f s).gotos })
    (hlabels : ∀ s, K.CoveredState s → ∀ l ∈ (f s).labels, K.span l.span)
    (hgotos : ∀ s, K.CoveredState s → ∀ g ∈ (f s).gotos, K.span g.span) :
    K.Keeps (update f le) := by
  intro n c s hs
  refine leads_update ⟨?_, trivial⟩
  have hknown := K.known hs
  rw [hf s]
  exact K.mark hs (.inl hl) (hlabels s hknown) (hgotos s hknown)

theorem keeps_checkLabel (hl : K.labels) (name : Syntax.Ident) (hspan : K.span span) :
    K.Keeps (checkLabel name span) := by
  refine .then (M := fun _ => True) (.context fun c => .pure trivial) fun place => ?_
  split
  · refine .state fun _ s _ => ?_
    split
    · exact keeps_report (.inl rfl) hspan
    · exact keeps_mark hl (fun s => rfl) (fun s hs => forall_mem_snoc hs.labels hspan)
        fun s hs => hs.gotos
  · exact .pure trivial

theorem keeps_checkGoto (hl : K.labels) (label : Syntax.Ident) (hspan : K.span span) :
    K.Keeps (checkGoto label span) := by
  refine .then (M := fun _ => True) (.context fun c => .pure trivial) fun place => ?_
  split
  · exact keeps_mark hl (fun s => rfl) (fun s hs => hs.labels)
      fun s hs => forall_mem_snoc hs.gotos hspan
  · exact .pure trivial

theorem keeps_useLabel (name : String) : K.Keeps (useLabel name) := by
  intro n c s hs
  refine leads_update ⟨K.mark hs (.inr ⟨s.marks_useLabel name, rfl⟩) (fun l hl => ?_)
    (K.known hs).gotos, trivial⟩
  obtain ⟨old, hold, rfl⟩ := List.mem_map.mp hl
  have hspan := (K.known hs).labels old hold
  split <;> exact hspan

theorem keeps_resolveGoto (hj : K.jumps) {g : Goto} (hg : K.span g.span) :
    K.Keeps (resolveGoto g) := by
  refine .then (M := fun _ => True) (.state fun _ s _ => .pure trivial) fun label => ?_
  split
  · exact keeps_report (.inr hj) hg
  · refine .then (keeps_useLabel _) fun _ => .state fun _ s _ => ?_
    split
    · exact keeps_report (.inl rfl) hg
    · exact .pure trivial

theorem keeps_checkGotos (hl : K.labels) (hj : K.jumps) : K.Keeps checkGotos := by
  have hclear : K.Keeps (update fun s => { s with gotos := [] }) :=
    keeps_mark hl (fun s => rfl) (fun s hs => hs.labels) fun _ _ => List.forall_mem_nil _
  refine .state fun _ s hs => ?_
  refine .then (.listForM fun g hg => keeps_resolveGoto hj ((K.known hs).gotos g hg)) fun _ =>
    .options ?_
  split
  · refine .state fun _ s hs => .then (.listForM fun l hl => ?_) fun _ => hclear
    exact keeps_report (.inl rfl) ((K.known hs).labels l (List.mem_filter.mp hl).1)
  · exact hclear

theorem keeps_checkJump (hj : K.jumps) {label : Option Syntax.Ident} (loopsOnly : Bool)
    (outside : Problem) (hlabel : ∀ l ∈ label, K.span l.span) (hspan : K.span span) :
    K.Keeps (checkJump label loopsOnly outside span) := by
  refine .context fun c => ?_
  dsimp only
  split
  · split
    · exact keeps_report (.inr hj) hspan
    · exact .pure trivial
  next l =>
    refine .then (M := fun _ => True) (.state fun _ s _ => .pure trivial) fun found =>
      .then (keeps_useLabel _) fun _ => ?_
    split
    · split
      · exact keeps_report (.inr hj) (hlabel l rfl)
      · exact .pure trivial
    · exact keeps_report (.inr hj) (hlabel l rfl)

theorem keeps_checkFallthrough (hj : K.jumps) (hspan : K.span span) :
    K.Keeps (checkFallthrough span) := by
  have hreport (q : Problem) : K.Keeps (report q span) := keeps_report (.inr hj) hspan
  refine .context fun c => ?_
  split
  · split
    · split
      · exact hreport _
      · exact .pure trivial
    · exact hreport _
  · exact hreport _

/-! ## Declarations -/

theorem keeps_recordDecl : K.Keeps recordDecl := by
  intro n c s hs
  refine .context ?_
  split
  next b hb => exact leads_update ⟨K.record hs hb, trivial⟩
  · exact .pure ⟨K.refl hs, trivial⟩

/-- The check notes a declaration, and obeys the regime after that. -/
def Regime.Records (K : Regime p o) (x : Check Unit) : Prop :=
  ∃ rest, x = (recordDecl >>= fun _ => rest) ∧ K.Keeps rest

theorem Regime.Records.keeps {x : Check Unit} (h : K.Records x) : K.Keeps x := by
  obtain ⟨rest, rfl, hrest⟩ := h
  exact .then keeps_recordDecl fun _ => hrest

theorem keeps_resolve {t : TypeExpr} (ht : t.Within K.span) : K.Keeps (resolve t) :=
  obeys_of_asks fun _ => .mono (.resolve (K.admits ht)) fun _ h => h.covers

theorem keeps_evalChecked {hint : Option Ty} (he : e.Within K.span)
    (hh : Covered.By K.toDemand hint) :
    K.Keeps (evalChecked e hint) :=
  obeys_of_asks fun _ => asks_evalChecked (K.admits he) hh

theorem records_checkDeclare (hd : K.declares) {name : Syntax.Ident} {mutable constant : Bool}
    {type : Option TypeExpr} {value : Option Expr}
    (h : (Stmt.declare name mutable constant type value span).Within K.span) :
    K.Records (checkDeclare name mutable constant type value span) := by
  obtain ⟨ht, hv, hname, hspan⟩ := h
  refine ⟨_, rfl, ?_⟩
  extract_lets rest
  have hdeclare (c : Option Const) {t : Ty} (ht : K.Covers t) :
      K.Keeps (declareLocal name t mutable c) :=
    keeps_declare hd ⟨ht, hname⟩
  have hrest : ∀ declared, Covered.By K.toDemand declared → K.Keeps (rest declared) := by
    intro declared hd
    unfold rest
    split
    · have hnone := hdeclare none (covers_getD hd)
      split
      · exact obeys_report rfl hspan hnone
      split
      · exact obeys_report rfl hspan hnone
      · exact hnone
    next e =>
      have he := hv e rfl
      refine .bind (obeys_of_asks fun _ => asks_declaredValue (K.admits he) hd) fun o ho => ?_
      split
      · exact hdeclare _ (covers_getD hd)
      next v =>
        refine .bind (obeys_of_asks fun _ => asks_initializedType _ he.span hspan hd (ho v rfl))
          fun t ht => ?_
        split
        · exact .then (obeys_of_asks fun _ => asks_constantOf _ _ he.span) fun c => hdeclare c ht
        · exact .then (.pure (M := fun _ => True) trivial) fun c => hdeclare c ht
  split
  next t => exact .bind (keeps_resolve (ht t rfl)) hrest
  · exact .bind (.pure covered_none) hrest

theorem keeps_declareNames (hd : K.declares) {names : List Syntax.LetName}
    {evaluated : List (Option Value)} (i : Nat) (hvs : ∀ e ∈ values, e.Within K.span)
    (hspan : K.span span) (hnames : ∀ n ∈ names, K.span n.name.span)
    (he : Covered.By K.toDemand evaluated) :
    K.Keeps (declareNames values span names evaluated i) := by
  induction names generalizing evaluated i with
  | nil => exact .pure trivial
  | cons n ns ih =>
    have htail : Covered.By K.toDemand evaluated.tail := fun o ho => he o (List.mem_of_mem_tail ho)
    unfold declareNames
    extract_lets rest
    have hrest : ∀ t, K.Covers t → K.Keeps (rest t) := fun t ht =>
      .then (keeps_declare hd ⟨ht, hnames n (by simp)⟩) fun _ =>
        ih (i + 1) (fun m hm => hnames m (by simp [hm])) htail
    split
    next v hv =>
      have hcov : K.Covers v.type := by
        obtain ⟨o, ho, hv⟩ := Option.bind_eq_some_iff.mp hv
        cases hv
        exact he (some v) (List.mem_of_head? ho) v rfl
      exact .bind (obeys_of_asks fun c => asks_localType
        (place_valueSpan (c := c) (fun e he => K.admits (hvs e he)) hspan i) hcov) hrest
    · exact .bind (.pure covers_void) hrest

theorem records_checkDeclareMany (hd : K.declares) {names : List Syntax.LetName}
    (h : (Stmt.declareMany names values span).Within K.span) :
    K.Records (checkDeclareMany names values span) := by
  cases h with
  | declareMany hvs hnames hspan =>
    refine ⟨_, rfl, .bind (obeys_of_asks fun _ => asks_multiValues _ fun e he =>
      K.admits (hvs e he)) fun _ he => ?_⟩
    exact .then (obeys_of_asks fun _ => .discard (asks_checkCounts _ _ hspan)) fun _ =>
      keeps_declareNames hd 0 hvs hspan hnames he

theorem keeps_checkLocalAlias {a : Syntax.TypeAlias} (ha : a.Within K.span) :
    K.Keeps (checkLocalAlias a) := by
  intro n c s hs _ s' hrun hg
  refine ⟨?_, trivial⟩
  cases aliased_of_run hrun with
  | outside => exact K.refl hs
  | taken hb h => exact K.report hs (.inl rfl) ha.name
  | unresolved hb hfree h => exact (keeps_resolve ha.target n c s hs h hg).1
  | @added b t s1 hb hfree hsame h =>
    have hadd : State.Le s1 { s1 with
      scopes := s1.scopes.addAlias b { name := a.name.name, type := t, span := a.name.span } } :=
        s1.le_scopes _
    obtain ⟨hcourse, ht⟩ := keeps_resolve ha.target n c s hs h (K.guard.of_le hadd hg)
    refine K.trans hcourse (K.addAlias (K.next hs hcourse) hb ?_ ⟨ht t rfl, ha.name⟩)
      (Step.le _ h) hadd
    exact ⟨hsame.aliases b ▸ hfree.1, hsame.varNames b ▸ hfree.2⟩

/-! ## Statements -/

theorem keeps_plain (hl : K.labels) (hj : K.jumps) {x : Stmt} (label : Option String)
    (h : x.Within K.span) (hx : x.isPlain = true) : K.Keeps (checkStmt x label) := by
  have hall {es : List Expr} (hes : ∀ e ∈ es, e.Within K.span) (c) : ∀ e ∈ es, K.asks c (.expr e) :=
    fun e he => K.admits (hes e he)
  cases h with
  | @assign targets op values span ht hv hspan =>
    cases op with
    | none => exact obeys_of_asks fun c => asks_checkAssign hspan (hall ht c) (hall hv c)
    | some op => exact obeys_of_asks fun c => asks_checkCompound op hspan (hall ht c) (hall hv c)
  | step ht hspan => exact obeys_of_asks fun _ => asks_checkStep _ hspan (K.admits ht)
  | expr he => exact obeys_of_asks fun _ => .discard (asks_eval (K.admits he) covered_none)
  | ret hv hspan =>
    exact obeys_of_asks fun c => asks_checkReturn (K.admits trivial) hspan (hall hv c)
  | leave hlabel hspan => exact keeps_checkJump hj _ _ hlabel hspan
  | again hlabel hspan => exact keeps_checkJump hj _ _ hlabel hspan
  | goto hspan => exact keeps_checkGoto hl _ hspan
  | label hspan => exact keeps_checkLabel hl _ hspan
  | fallthrough hspan => exact keeps_checkFallthrough hj hspan
  | typeAlias ha => exact keeps_checkLocalAlias ha
  | _ => cases hx

end JaneCheck.Check
