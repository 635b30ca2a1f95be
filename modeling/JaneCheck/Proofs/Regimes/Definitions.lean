import JaneCheck.Package.Instances
import JaneCheck.Proofs.Regimes

/-!
# Bodies and definitions obey every regime

The statements of a body are checked inside one another, so what their parts obey
they obey too. With them the checks of functions, of structs and enums, and of what
the declarations of a file say about types obey a regime. Only the body of a function
needs all that a regime may admit.
-/

namespace JaneCheck.Check

open Demand
open Syntax (Expr Stmt)

variable {p : Package} {o : Options} {K : Regime p o} {t : Ty} {e : Expr}

/-! ## Bodies -/

theorem within_inner {P : Span → Prop} {x : Stmt} {stmts : List Stmt}
    (h : x.Within P) (hstmts : stmts ∈ x.inner) : ∀ s ∈ stmts, s.Within P := by
  cases h with
  | branch _ hb ho =>
    rcases List.mem_append.mp hstmts with h | h
    · obtain ⟨b, hmem, rfl⟩ := List.mem_map.mp h
      exact hb b hmem
    · obtain ⟨b, hmem, rfl⟩ := List.mem_map.mp h
      exact ho b (Option.mem_toList.mp hmem)
  | loop _ hb | block hb =>
    obtain rfl := List.mem_singleton.mp hstmts
    exact hb
  | select _ _ hb _ hlast =>
    rcases List.mem_append.mp hstmts with h | h
    · obtain ⟨c, hmem, rfl⟩ := List.mem_map.mp h
      exact hb c hmem
    · obtain ⟨c, hmem, rfl⟩ := List.mem_map.mp h
      exact hlast c (Option.mem_toList.mp hmem)
  | _ => cases hstmts

theorem obeys_within {f : Excursion} {x : Check α} {R : α → Prop} (hx : K.Obeys x R)
    (hblock : ∀ c, (f c).block = c.block) (hreport : ∀ c, (f c).reportGlobals = c.reportGlobals)
    (hbindings : ∀ c, (f c).bindings = c.bindings) (hret : ∀ c, (f c).func.ret = c.func.ret) :
    K.Obeys (inContext f x) R :=
  obeys_inContext hblock hreport
    (fun c hc => ⟨by rw [hbindings]; exact hc.bindings, by rw [hret]; exact hc.ret⟩) hx

theorem composes_keeps (hd : K.declares) (hl : K.labels) (hj : K.jumps) :
    Composes (fun stmts => ∀ s ∈ stmts, s.Within K.span) K.Keeps where
  next h s hs := h s (by simp [hs])
  enter h hstmts := within_inner (h _ List.mem_cons_self) hstmts
  pure := .pure trivial
  andThen hx hy := .then hx fun _ => hy
  atIndex _ hx := obeys_within hx (fun _ => rfl) (fun _ => rfl) (fun _ => rfl) fun _ => rfl
  withBlock _ hx := obeys_withBlock _ fun _ => hx
  withCase _ _ _ hx := obeys_withBlock _ fun _ =>
    obeys_within hx (fun _ => rfl) (fun _ => rfl) (fun _ => rfl) fun _ => rfl
  plain label h hs := keeps_plain hl hj label (h _ List.mem_cons_self) hs
  declare h := (records_checkDeclare hd (h _ List.mem_cons_self)).keeps
  declareMany h := (records_checkDeclareMany hd (h _ List.mem_cons_self)).keeps
  condition h hb := by
    cases h _ List.mem_cons_self with
    | branch hc _ _ => exact obeys_of_asks fun _ => asks_checkCondition rfl (K.admits (hc _ hb))
  loop label h hbody := by
    cases h _ List.mem_cons_self with
    | loop hk _ =>
      refine .bind (obeys_of_asks fun _ => asks_loopVars hk fun _ he => K.admits he)
        fun vars hvars => ?_
      refine obeys_within ?_ (fun _ => rfl) (fun _ => rfl) (fun _ => rfl) fun _ => rfl
      refine obeys_withBlock _ fun _ => .then (.listForM fun v hv => ?_) fun _ => hbody
      exact keeps_declare hd ⟨(hvars v hv).2, (hvars v hv).1⟩
  select label h hf := by
    cases h _ List.mem_cons_self with
    | select hs he _ hle _ =>
      refine .bind (obeys_of_asks fun _ => asks_subject fun e h => K.admits (hs e h)) fun v hv => ?_
      refine obeys_within (hf v fun case hcase => obeys_of_asks fun _ =>
        asks_checkCaseExprs _ hv fun e he' => K.admits ?_) (fun _ => rfl) (fun _ => rfl)
          (fun _ => rfl) fun _ => rfl
      rcases List.mem_append.mp hcase with hcase | hcase
      · exact he _ hcase e he'
      · exact hle _ (Option.mem_toList.mp hcase) e he'

/-! ## Functions -/

theorem keeps_checkDefault (ht : K.Covers t) (he : e.Within K.span) : K.Keeps (checkDefault t e) :=
  obeys_withBlock _ fun _ => obeys_of_asks fun _ =>
    .then (asks_eval (K.admits he) (covered_some ht)) fun _ => .discard (asks_assign _ _ he.span)

theorem keeps_checkParamsFrom {ps : List Syntax.Param} {resolved : List (Param Ty)}
    (seenDefault : Bool) (hps : ∀ p ∈ ps, p.Within K.span)
    (hr : ∀ p ∈ resolved, K.Covers p.type) :
    K.Keeps (checkParamsFrom ps resolved seenDefault) := by
  induction ps generalizing resolved seenDefault with
  | nil => unfold checkParamsFrom; exact .pure trivial
  | cons p ps ih =>
    cases resolved with
    | nil => unfold checkParamsFrom; exact .pure trivial
    | cons q rest =>
      have hp := hps p (by simp)
      have hnext : K.Keeps (checkParamsFrom ps rest (seenDefault || p.default.isSome)) :=
        ih _ (fun p h => hps p (by simp [h])) fun q h => hr q (by simp [h])
      unfold checkParamsFrom
      extract_lets rest1 rest2
      have hrest : ∀ u, K.Keeps (rest2 u) := by
        intro u
        dsimp only [rest2]
        split
        next e he =>
          split
          · exact .then (keeps_checkDefault (hr q (by simp)) (hp.default e he)) fun _ => hnext
          · exact hnext
        · split
          · exact obeys_report rfl hp.place hnext
          · exact hnext
      split
      · exact .then (keeps_report (.inl rfl) hp.place) hrest
      · exact hrest ()

theorem keeps_declareReceiver (hd : K.declares) {f : FuncInfo} {ownerTypes : List Ty}
    (hdecl : f.decl.Within K.span) (ho : ∀ t ∈ ownerTypes, K.Covers t)
    (hformed : ∀ owner ∈ f.owner, K.Formed owner (K.name owner) ownerTypes) :
    K.Keeps (declareReceiver f ownerTypes) := by
  unfold declareReceiver
  split
  next owner receiver heq =>
    obtain ⟨howner, hreceiver⟩ := Prod.mk.inj heq
    have ht : K.Covers (.struct owner (p.struct owner).name ownerTypes) := .of fun hstrict => by
      rw [((K.covered hstrict).structs owner).name]
      exact covers_struct.mpr ⟨hformed owner howner, ho⟩
    refine .package (keeps_declare hd ⟨?_, hdecl.receiver receiver hreceiver⟩)
    dsimp only
    split
    · exact covers_reference.mpr ht
    · exact ht
  · exact .pure trivial

theorem keeps_declareParams (hd : K.declares) {decls : List Syntax.Param} {params : List (Param Ty)}
    (hdecls : ∀ d ∈ decls, d.Within K.span) (h : ∀ p ∈ params, K.Covers p.type) :
    K.Keeps (declareParams decls params) :=
  .listForM fun q hq =>
    have hq := List.of_mem_zip hq
    keeps_declare hd ⟨h q.2 hq.2, (hdecls q.1 hq.1).name⟩

theorem keeps_declareResults (hd : K.declares) {decl : Syntax.Function} {ret : Ty}
    (hdecl : decl.Within K.span) (h : K.Covers ret) : K.Keeps (declareResults decl ret) :=
  .listForM fun q hq =>
    have hq := List.of_mem_zip hq
    keeps_declare hd ⟨covers_resultTypes h q.2 hq.2, hdecl.results q.1 hq.1⟩

theorem keeps_checkBody (hd : K.declares) (hl : K.labels) (hj : K.jumps) {id : FuncId}
    {ownerTypes types : List Ty} (hdecl : (p.func id).decl.Within K.span)
    (ho : ∀ t ∈ ownerTypes, K.Covers t) (ht : ∀ t ∈ types, K.Covers t)
    (hformed : ∀ owner ∈ (p.func id).owner, K.Formed owner (K.name owner) ownerTypes) :
    K.Keeps (checkBody id ownerTypes types) := by
  have hframe : Covered.By K.toDemand
      ((p.ownerGenerics (p.func id)).zip ownerTypes ++ (p.func id).generics.zip types) :=
    covered_append (covered_zip ho) (covered_zip ht)
  refine .package (obeys_inContext (fun _ => rfl) (fun _ => rfl)
    (fun _ hc => ⟨covered_pushFrame hc.bindings hframe, hc.ret⟩) ?_)
  refine .bind (obeys_of_asks fun c => asks_instantiateSig (K.allows c) (K.admits trivial) id ho ht)
    fun sig hsig => ?_
  obtain ⟨hparams, hret⟩ := covers_function.mp hsig
  refine .then (M := fun _ => True) (.then (keeps_mark hl (fun s => rfl)
    (fun _ _ => List.forall_mem_nil _) fun _ _ => List.forall_mem_nil _) fun _ => ?_) fun _ => ?_
  · refine obeys_inContext (fun _ => rfl) (fun _ => rfl) (fun _ hc => ⟨hc.bindings, hret⟩)
      (obeys_withBlock _ fun _ => ?_)
    refine .then (keeps_declareReceiver hd hdecl ho hformed) fun _ => ?_
    refine .then (keeps_declareParams hd hdecl.params hparams) fun _ => ?_
    refine .then (keeps_declareResults hd hdecl hret) fun _ => ?_
    exact .then ((composes_keeps hd hl hj).ofList _ 0 none hdecl.body) fun _ =>
      keeps_checkGotos hl hj
  · split
    · exact keeps_report (.inl rfl) hdecl.place
    · exact .pure trivial

/-! ## Structs and enums -/

theorem keeps_fieldType {id : StructId} {field : Syntax.Field} {info : FieldInfo} (types : List Ty)
    (hf : field ∈ (p.struct id).decl.fields) (hi : K.Covers info.type) :
    K.Keeps (fieldType types field info) := by
  unfold fieldType
  split
  · exact .pure hi
  · exact fun _ _ _ hs => K.quiet hf hs

theorem keeps_checkFields {id : StructId} {fields : List Syntax.Field} {infos : List FieldInfo}
    (types : List Ty) (hf : fields ⊆ (p.struct id).decl.fields) (hi : ∀ i ∈ infos, K.Covers i.type) :
    K.Keeps (checkFields types fields infos) := by
  fun_induction checkFields types fields infos with
  | case1 field fields info infos ih =>
    have hfield := hf (List.mem_cons_self (a := field))
    refine .bind (keeps_fieldType types hfield (hi info (by simp))) fun t ht => ?_
    refine .then (.optionForM fun e he =>
      keeps_checkDefault ht ((K.within_fields id _ hfield).default e he)) fun _ => ?_
    refine .bind (ih (List.subset_of_cons_subset hf) fun i h => hi i (by simp [h])) fun ts hts => ?_
    exact .pure (covered_cons ⟨trivial, ht⟩ hts)
  | case2 => exact .pure covered_nil

theorem keeps_checkStruct {types : List Ty} (id : StructId) (ht : ∀ t ∈ types, K.Covers t) :
    K.Keeps (checkStruct id types) :=
  .package (obeys_inContext (fun _ => rfl) (fun _ => rfl)
    (fun _ hc => ⟨covered_pushFrame hc.bindings (covered_zip ht), hc.ret⟩)
    (keeps_checkFields types (List.Subset.refl _) fun i hi => .of fun hstrict =>
      ((K.covered hstrict).structs id).fields i hi))

theorem keeps_statedValue {base : Ty} (hb : K.Covers base) (he : e.Within K.span) :
    K.Keeps (statedValue base e) := by
  refine .then (obeys_withBlock _ fun _ => keeps_evalChecked he (covered_some hb)) fun o => ?_
  split
  · exact .pure fun _ _ => trivial
  split
  · exact obeys_of_asks fun _ => asks_refuse he.span rfl covered_none
  · exact .then (obeys_of_asks fun _ => asks_assign _ _ he.span) fun _ => .pure fun _ _ => trivial

theorem keeps_impliedValue {item : Syntax.EnumItem} (base : Ty) (next : Const)
    (hi : item.Within K.span) : K.Keeps (impliedValue base next item) := by
  unfold impliedValue
  split
  · exact .pure trivial
  · refine .then (obeys_of_asks fun _ => asks_setting) fun _ => ?_
    dsimp only
    split
    · exact obeys_report rfl hi.name (.pure trivial)
    · exact .pure trivial

theorem keeps_itemsFrom {base : Ty} {items : List Syntax.EnumItem} (next : Const)
    (known : List (String × Const)) (hb : K.Covers base) (hi : ∀ i ∈ items, i.Within K.span) :
    K.Keeps (itemsFrom base items next known) := by
  induction items generalizing next known with
  | nil => exact .pure fun _ _ => ⟨trivial, trivial⟩
  | cons item items ih =>
    have hitem := hi item (by simp)
    replace ih := fun next known => ih next known fun i h => hi i (by simp [h])
    unfold itemsFrom
    split
    · exact obeys_report rfl hitem.name (ih _ _)
    extract_lets rest
    have hrest : ∀ o, K.Keeps (rest o) := by
      intro o
      dsimp only [rest]
      split
      · exact ih _ _
      · exact .then (obeys_of_asks fun _ => asks_pin _ _) fun _ => ih _ _
    split
    next e he => exact .then (keeps_statedValue hb (hitem.value e he)) hrest
    · exact .then (.map (R := fun _ => True) (keeps_impliedValue _ _ hitem) fun _ _ => trivial)
        hrest

theorem keeps_enumItems {decl : Syntax.EnumDef} (h : decl.Within K.span) :
    K.Keeps (enumItems decl) := by
  unfold enumItems
  extract_lets rest
  have hitems : ∀ items : List (String × Const), Covered.By K.toDemand items :=
    fun _ _ _ => ⟨trivial, trivial⟩
  have hrest : ∀ o : Option Ty, Covered.By K.toDemand o → K.Keeps (rest o) := by
    intro o ho
    dsimp only [rest]
    split
    · exact .pure ⟨covers_base _, hitems _⟩
    next base =>
      have hbase := ho base rfl
      split
      · exact .bind (keeps_itemsFrom _ _ hbase h.items) fun items _ => .pure ⟨hbase, hitems _⟩
      · exact obeys_report rfl h.name (.pure ⟨hbase, hitems _⟩)
  split
  next t ht => exact .bind (keeps_resolve (h.base t ht)) hrest
  · exact .bind (.pure (covered_some (covers_base _))) hrest

end JaneCheck.Check

/-! ## Signatures -/

namespace JaneCheck.Demand

structure CoveredTypes (D : Demand) (t : Package.FileTypes) : Prop where
  fields : ∀ e ∈ t.fields, Covered.By D e.2
  methods : ∀ e ∈ t.methods, Covered.By D e.2
  sigs : ∀ e ∈ t.sigs, D.Covers (.function e.2)

instance : Covered Package.FileTypes := ⟨CoveredTypes⟩

end JaneCheck.Demand

namespace JaneCheck.Package

open Check Demand

variable {p : Package} {o : Options} {K : Regime p o}

theorem keeps_withTemplates [Covered α] {x : Check α} (names : List String) (hx : K.Keeps x) :
    K.Keeps (withTemplates names x) :=
  obeys_within hx (fun _ => rfl) (fun _ => rfl) (fun _ => rfl) fun _ => rfl

theorem keeps_fieldInfos {fs : List Syntax.Field} {known : List FieldInfo}
    (hfs : ∀ f ∈ fs, f.Within K.span) (hk : Covered.By K.toDemand known) :
    K.Keeps (fieldInfos fs known) := by
  induction fs generalizing known with
  | nil => exact .pure hk
  | cons f fs ih =>
    replace ih := fun known hk => @ih known (fun f' h => hfs f' (by simp [h])) hk
    have hf := hfs f (by simp)
    unfold fieldInfos
    split
    · exact obeys_report rfl hf.name (ih _ hk)
    · refine .bind (obeys_of_asks fun _ => asks_resolveOrVoid (K.admits hf.type)) fun t ht => ?_
      exact ih _ (covered_append hk (covered_cons (α := FieldInfo) ht covered_nil))

theorem keeps_resolveSignature {ps : List Syntax.Param} {ret : Syntax.ReturnType}
    (receiver : Option Syntax.Receiver) (isUnsafe : Bool) (hps : ∀ q ∈ ps, q.Within K.span)
    (hret : ∀ t ∈ ret.type, t.Within K.span) :
    K.Keeps (resolveSignature ps ret receiver isUnsafe) :=
  obeys_of_asks fun _ => asks_resolveSignature _ _ (fun q hq => K.admits (hps q hq).type)
    fun t ht => K.admits (hret t ht)

theorem keeps_traitMethods {ms : List Syntax.MethodSig} {known : List TraitMethod}
    (hms : ∀ m ∈ ms, m.Within K.span) (hk : Covered.By K.toDemand known) :
    K.Keeps (traitMethods ms known) := by
  induction ms generalizing known with
  | nil => exact .pure hk
  | cons m ms ih =>
    replace ih := fun known hk => @ih known (fun m' h => hms m' (by simp [h])) hk
    have hm := hms m (by simp)
    unfold traitMethods
    split
    · exact obeys_report rfl hm.name (ih _ hk)
    · refine .bind (keeps_resolveSignature _ _ hm.params hm.ret) fun sig hsig => ?_
      exact ih _ (covered_append hk (covered_cons (α := TraitMethod) hsig covered_nil))

theorem keeps_templateNames {span : Span} (gs known : List String) (hspan : K.span span) :
    K.Keeps (templateNames span gs known) := by
  induction gs generalizing known with
  | nil => exact .pure fun _ _ => trivial
  | cons g gs ih =>
    unfold templateNames
    split
    · exact obeys_report rfl hspan (ih _)
    · exact ih _

theorem keeps_funcSig {f : FuncInfo} (hf : f.decl.Within K.span) : K.Keeps (funcSig f) := by
  have hsig := fun names => keeps_withTemplates names
    (keeps_resolveSignature f.decl.receiver f.decl.isUnsafe hf.params hf.ret)
  have hnames :=
    Discipline.Obeys.then (keeps_templateNames f.generics (p.ownerGenerics f) hf.name) hsig
  refine .package ?_
  dsimp only
  split
  next first rest hgenerics =>
    split
    · have hfirst : K.span first.span := hf.generics first (by rw [hgenerics]; simp)
      exact obeys_report rfl hfirst hnames
    · exact hnames
  · exact hnames

theorem keeps_forEachCheck [Covered β] {f : α → Check β} {as : List (α × Nat)}
    (h : ∀ e ∈ as, K.Keeps (f e.1)) : K.Keeps (forEachCheck (withId f) as) := by
  induction as with
  | nil => exact .pure covered_nil
  | cons a as ih =>
    have ha : K.Keeps (withId f a) := .bind (h a (by simp)) fun b hb => .pure ⟨trivial, hb⟩
    refine .bind ha fun b hb => ?_
    exact .bind (ih fun a' h' => h a' (by simp [h'])) fun bs hbs => .pure (covered_cons hb hbs)

theorem mem_of_mem_ofFile {as : Array α} {fileOf : α → Nat} {file : Nat} {e : α × Nat}
    (h : e ∈ ofFile as fileOf file) : e.1 ∈ as :=
  Array.mem_toList_iff.mp (List.fst_mem_of_mem_zipIdx (List.mem_filter.mp h).1)

theorem getD_of_mem_ofFile [Inhabited α] {as : Array α} {fileOf : α → Nat} {file : Nat}
    {e : α × Nat}
    (h : e ∈ ofFile as fileOf file) : as.getD e.2 default = e.1 := by
  have hmem := (List.mem_filter.mp h).1
  rw [List.mem_zipIdx_iff_getElem?] at hmem
  rw [Array.getD_eq_getD_getElem?, ← Array.getElem?_toList, hmem, Option.getD_some]

theorem keeps_fileTypes (file : Nat) : K.Keeps (p.fileTypes file) := by
  have hstructs : ∀ e ∈ ofFile p.structs (·.file) file, K.Keeps (declaredFields e.1) := by
    intro e he
    have hentry : p.struct e.2 = e.1 := getD_of_mem_ofFile he
    exact keeps_withTemplates _ (keeps_fieldInfos (hentry ▸ K.within_fields e.2) covered_nil)
  have htraits : ∀ e ∈ ofFile p.traits (·.file) file,
      K.Keeps (traitMethods e.1.decl.methods []) := by
    intro e he
    have hentry : p.trait e.2 = e.1 := getD_of_mem_ofFile he
    exact keeps_traitMethods (hentry ▸ K.within_methods e.2) covered_nil
  refine .bind (keeps_forEachCheck hstructs) fun fields hfields => ?_
  refine .bind
    (keeps_forEachCheck (f := fun t : TraitInfo => traitMethods t.decl.methods []) htraits)
    fun methods hmethods => ?_
  refine .bind (keeps_forEachCheck fun e he =>
    keeps_funcSig (K.within_funcs _ (mem_of_mem_ofFile he))) fun sigs hsigs => ?_
  exact .pure ⟨fun e he => (hfields e he).2, fun e he => (hmethods e he).2,
    fun e he => (hsigs e he).2⟩

end JaneCheck.Package
