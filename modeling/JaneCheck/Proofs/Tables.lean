import JaneCheck.Proofs.Determined
import JaneCheck.Proofs.Stages
import Mathlib.Data.List.Forall2

/-!
# What the phases enter

The types of fields, parameters and results are resolved file by file, where
every alias was tried before. A type that is entered is denoted by its type
expression, or it is void and the type expression is to blame (`Entered`), as
long as no error is reported. `entered_resolveTypes` says so of the whole table.
-/

namespace JaneCheck

open Check Package
open Syntax (TypeExpr)

/-! ## Checks in sequence -/

section Sequence

variable {G : Guard} {env : Env} {s : State}

theorem Check.Leads.weaken {H : Guard} {x : Check α} {Q : α → State → Prop} (hx : Leads G env s x Q)
    (h : ∀ s', H.holds s' → G.holds s') : Leads H env s x Q :=
  fun _ _ he hg => hx he (h _ hg)

theorem Check.leads_forEachCheck {f : α → Check β} {as : List α} {I : State → Prop}
    {Q : α → β → Prop}
    (hf : ∀ a ∈ as, ∀ s, I s → Leads G env s (f a) fun b s' => I s' ∧ Q a b) (hs : I s) :
    Leads G env s (forEachCheck f as) fun bs s' => I s' ∧ List.Forall₂ Q as bs := by
  induction as generalizing s with
  | nil => exact .pure ⟨hs, .nil⟩
  | cons a as ih =>
    refine .bind (hf a (by simp) s hs) fun b s1 _ hb => ?_
    refine .bind (ih (fun a' h => hf a' (by simp [h])) hb.1) fun bs s2 _ hbs => ?_
    exact .pure ⟨hbs.1, .cons hb.2 hbs.2⟩

theorem Check.length_forEachCheck {f : α → Check β} {as : List α} {bs : List β} {s' : State}
    (h : (forEachCheck f as env).run s = some (bs, s')) : bs.length = as.length := by
  have hall := leads_forEachCheck (G := .any) (I := fun _ => True) (Q := fun _ _ => True)
    (fun _ _ _ _ _ _ _ _ => ⟨trivial, trivial⟩) trivial h trivial
  exact hall.2.length_eq.symm

end Sequence

/-! ## Aliases -/

section Aliases

variable {P : Span → Prop} {setup : Setup} {p q : Package} {found : Findings}

/-- The targets of the aliases are asked for one after the other. -/
theorem Check.accounts_aliases {o : Options} {L : Prop} {n : Nat} {s : State} {ids : List AliasId}
    (hL : Charges P p o L) (hunbroken : p.brokenAliases = [])
    (hids : ∀ id ∈ ids, id < p.aliases.size) (hs : Fair p o L s) :
    Leads (.clean P) (envAt p o n {}) s (forEachCheck aliasType ids) fun types _ =>
      none ∈ types → L := by
  refine (leads_forEachCheck (I := Fair p o L) (Q := fun _ t => t = none → L)
    (fun id hid s hs a s' hrun hclean => ?_) hs).mono fun types s' h hnone => ?_
  · have hanswer := accounts_aliasType (accounts_resolveAt hL n) (.declared []) hs hL (hids id hid) hrun
      hclean
    refine ⟨⟨.opened (.declared []) hs.reached hrun, hanswer.failed⟩, fun hnone => ?_⟩
    exact (hanswer.none hnone).resolve_left (by simp [hunbroken])
  · obtain ⟨i, hi⟩ := List.mem_iff_getElem?.mp hnone
    obtain ⟨hlt, hi⟩ := List.getElem?_eq_some_iff.mp hi
    exact h.2.get (h.2.length_eq ▸ hlt) hlt hi

/-- An alias that fails without an error blames the target of some alias. -/
theorem Package.blame_of_broken (hdeclared : ∀ a ∈ p.aliases, a.decl.Within P)
    (hnames : ∀ {name id}, p.lookup? name = some (.typeAlias id) → id < p.aliases.size)
    (hunbroken : p.brokenAliases = [])
    (h : p.resolveAliases setup = some (q, found))
    (hclean : ∀ d ∈ found.diags.toList, P d.span → d.isError = false)
    (hbroken : q.brokenAliases ≠ []) :
    ∃ id < p.aliases.size, Blame P p setup.options (p.typeAlias id).decl.target := by
  obtain ⟨⟨types, f⟩, hfind, he⟩ := Option.bind_eq_some_iff.mp h
  cases he
  obtain ⟨s, hrun, rfl⟩ := run_of_find hfind
  have hcharges : Charges P p setup.options
      (∃ id < p.aliases.size, Blame P p setup.options (p.typeAlias id).decl.target) := by
    refine ⟨hnames, fun {id} hid => ?_, fun {id} hid hb => ⟨id, hid.known, hb⟩⟩
    exact hdeclared _ (by simp [typeAlias, hid.known])
  refine accounts_aliases hcharges hunbroken (by simp) ⟨.start, ?_⟩ hrun hclean ?_
  · rintro ⟨id, -, h | h⟩ <;> cases h
  · obtain ⟨id, hid⟩ := List.exists_mem_of_ne_nil _ hbroken
    obtain ⟨⟨id', t⟩, hmem, ht⟩ := List.mem_filterMap.mp hid
    cases t with
    | none => exact (List.of_mem_zip hmem).2
    | some t => cases ht

/-- After the phase every alias has its target or has failed. -/
theorem Package.tried_resolveAliases
    (hnames : ∀ {name id}, p.lookup? name = some (.typeAlias id) → id < p.aliases.size)
    (h : p.resolveAliases setup = some (q, found)) :
    (∀ id < q.aliases.size, (∃ t, (q.typeAlias id).type = some t) ∨ id ∈ q.brokenAliases) ∧
      ∀ {name id}, q.lookup? name = some (.typeAlias id) → id < q.aliases.size := by
  obtain ⟨⟨types, f⟩, hfind, he⟩ := Option.bind_eq_some_iff.mp h
  cases he
  obtain ⟨s, hrun, rfl⟩ := run_of_find hfind
  have hlen : types.length = p.aliases.size := by
    rw [length_forEachCheck hrun, List.length_range]
  refine ⟨fun id hid => ?_, fun {name id} hm => ?_⟩
  · replace hid : id < p.aliases.size := by simpa [hlen] using hid
    have htypes : id < types.length := hlen ▸ hid
    cases ht : types[id] with
    | some t =>
      have hentry : (p.aliases.toList.zip types)[id]? = some (p.aliases[id], some t) :=
        List.getElem?_zip_eq_some.mpr ⟨by simp [hid], by simp [htypes, ht]⟩
      exact .inl ⟨t, by simp [typeAlias, hentry]⟩
    | none =>
      refine .inr (List.mem_filterMap.mpr ⟨(id, none), ?_, rfl⟩)
      exact List.mem_iff_getElem.mpr ⟨id, by simp; omega, by simp [ht]⟩
  · simpa [hlen] using hnames hm

end Aliases

/-! ## Fields, parameters and results -/

/-- What is entered for a type expression: what it denotes, or void where it is to
blame. -/
def Entered (D : Demand) (p : Package) (o : Options) (b : String → Option Ty) (t : TypeExpr)
    (u : Ty) : Prop :=
  D.Denotes b t u ∨ u = .void ∧ Blame D.span p o t

/-- A parameter has the type of its type expression, a variadic one a slice of it. -/
def EnteredParam (D : Demand) (p : Package) (o : Options) (b : String → Option Ty)
    (d : Syntax.Param) (q : Param Ty) : Prop :=
  ∃ u, q.type = (if d.variadic then .slice u else u) ∧ Entered D p o b d.type u

structure EnteredSig (D : Demand) (p : Package) (o : Options) (b : String → Option Ty)
    (ps : List Syntax.Param) (r : Syntax.ReturnType) (sig : FnSig) : Prop where
  params : List.Forall₂ (EnteredParam D p o b) ps sig.params
  ret : ∀ t ∈ r.type, Entered D p o b t sig.ret

/-- A field has its name and the type of its type expression. -/
def EnteredField (D : Demand) (p : Package) (o : Options) (b : String → Option Ty)
    (d : Syntax.Field) (f : FieldInfo) : Prop :=
  f.name = d.name.name ∧ Entered D p o b d.type f.type

/-- The fields of a struct, whose type parameters have no values. -/
def EnteredStruct (D : Demand) (p : Package) (o : Options) (s : StructInfo)
    (fields : List FieldInfo) : Prop :=
  List.Forall₂ (EnteredField D p o (Context.bound { templates := s.generics })) s.decl.fields fields

/-- The signature of a function, where some names are type parameters. -/
def EnteredFunc (D : Demand) (p : Package) (o : Options) (f : FuncInfo) (sig : FnSig) : Prop :=
  ∃ names, EnteredSig D p o (Context.bound { templates := names }) f.decl.params f.decl.ret sig

namespace Check

/-- No error is reported, and the demand has all that is asked for. -/
def Guard.silent (D : Demand) : Guard where
  holds s := s.Clean D.span ∧ ∀ r ∈ s.requests.toList, D.request r
  of_le hle h := ⟨(Guard.clean D.span).of_le hle h.1, (Guard.grants D).of_le hle h.2⟩

/-- A state of a phase in which no alias is open. -/
structure Ready (D : Demand) (p : Package) (o : Options) (s : State) : Prop where
  fair : Fair p o False s
  covered : D.CoveredState s

theorem Context.Top.covered {D : Demand} {p : Package} {c : Context} (h : c.Top p) :
    D.CoveredContext c := by
  induction h with
  | declared => exact ⟨by simp, Demand.covers_void⟩
  | opened _ _ _ ih => exact ⟨by simp [Context.openAlias], ih.ret⟩

theorem Context.bound_templates (templates : List String) (name : String) :
    Context.bound { templates } name = if templates.contains name then some (.generic name) else none := by
  simp [Context.bound, Bindings.lookup?]

variable {D : Demand} {p : Package} {o : Options} {n : Nat} {c : Context} {s : State}

theorem Ready.report {q : Problem} {span : Span} {s' : State} {env : Env} {a : Unit}
    (hs : Ready D p o s) (hspan : D.span span) (h : (report q span env).run s = some (a, s')) :
    Ready D p o s' := by
  cases h
  exact ⟨⟨.reported hs.fair.reached, hs.fair.failed⟩,
    { hs.covered with diags := Demand.forall_mem_push hs.covered.diags hspan }⟩

section Entries

variable (hp : D.CoveredPackage p) (hL : Charges D.span p o False) (hnone : ∀ id, ¬p.Pending id)

include hp hL hnone

theorem leads_resolveOrVoid {t : TypeExpr} (hc : c.Top p) (ht : t.Within D.span)
    (hs : Ready D p o s) :
    Leads (.silent D) (envAt p o n c) s (resolveOrVoid t) fun u s' =>
      Ready D p o s' ∧ Entered D p o c.bound t u := by
  refine .bind (M := fun a s' => Ready D p o s' ∧ (∀ u ∈ a, D.Denotes c.bound t u) ∧
    (a = none → Blame D.span p o t)) (fun a s' hrun hg => ?_) fun a s' _ ha => .pure ⟨ha.1, ?_⟩
  · have haccount := accounts_resolveAt hL n hc ht (fun id hid _ => hnone id hid) hs.fair hrun hg.1
    obtain ⟨hs', hmeant⟩ := (Demand.covered_levels o hp n hc.covered).resolveIn hc.covered ht
      hs.covered hrun hg.2
    exact ⟨⟨haccount.fair, hs'⟩, hmeant.denotes hp.strict hc.block,
      fun h => (haccount.none h).resolve_right id⟩
  · cases a with
    | none => exact .inr ⟨rfl, ha.2.2 rfl⟩
    | some u => exact .inl (ha.2.1 u rfl)

theorem leads_resolveParams {ps : List Syntax.Param} (hc : c.Top p)
    (hps : ∀ q ∈ ps, q.Within D.span) (hs : Ready D p o s) :
    Leads (.silent D) (envAt p o n c) s (resolveParams ps) fun qs s' =>
      Ready D p o s' ∧ List.Forall₂ (EnteredParam D p o c.bound) ps qs := by
  induction ps generalizing s with
  | nil => exact .pure ⟨hs, .nil⟩
  | cons q ps ih =>
    refine .bind (leads_resolveOrVoid hp hL hnone hc (hps q (by simp)).type hs)
      fun u s1 _ hu => ?_
    refine .bind (ih (fun q' h => hps q' (by simp [h])) hu.1) fun qs s2 _ hqs => ?_
    exact .pure ⟨hqs.1, .cons ⟨u, rfl, hu.2⟩ hqs.2⟩

theorem leads_resolveSignature {ps : List Syntax.Param} {r : Syntax.ReturnType}
    {receiver : Option Syntax.Receiver} {isUnsafe : Bool} (hc : c.Top p)
    (hps : ∀ q ∈ ps, q.Within D.span) (hr : ∀ t ∈ r.type, t.Within D.span)
    (hs : Ready D p o s) :
    Leads (.silent D) (envAt p o n c) s (resolveSignature ps r receiver isUnsafe) fun sig s' =>
      Ready D p o s' ∧ EnteredSig D p o c.bound ps r sig := by
  refine .bind (leads_resolveParams hp hL hnone hc hps hs) fun qs s1 _ hqs => ?_
  split
  next t ht =>
    refine .bind (leads_resolveOrVoid hp hL hnone hc (hr t ht) hqs.1) fun u s2 _ hu => ?_
    refine .pure ⟨hu.1, hqs.2, fun t' ht' => ?_⟩
    rw [ht] at ht'
    cases ht'
    exact hu.2
  next hno =>
    refine .pure ⟨hqs.1, hqs.2, fun t ht => ?_⟩
    rw [hno] at ht
    cases ht

theorem leads_fieldInfos {fs : List Syntax.Field} {known : List FieldInfo} (hc : c.Top p)
    (hfs : ∀ f ∈ fs, f.Within D.span) (hs : Ready D p o s) :
    Leads (.silent D) (envAt p o n c) s (fieldInfos fs known) fun infos s' =>
      Ready D p o s' ∧
        ∃ new, infos = known ++ new ∧ List.Forall₂ (EnteredField D p o c.bound) fs new := by
  induction fs generalizing s known with
  | nil => exact .pure ⟨hs, [], by simp, .nil⟩
  | cons f fs ih =>
    have hf := hfs f (by simp)
    unfold fieldInfos
    split
    · -- a second field of a name is reported
      exact .stop ((leads_report hf.name rfl).weaken fun _ h => h.1)
    · refine .bind (leads_resolveOrVoid hp hL hnone hc hf.type hs) fun u s1 _ hu => ?_
      refine (ih (fun f' h => hfs f' (by simp [h])) hu.1).mono fun infos s' h => ?_
      obtain ⟨hs', new, rfl, hnew⟩ := h
      exact ⟨hs', ⟨f.name.name, u, f.default.isSome⟩ :: new, by simp, .cons ⟨rfl, hu.2⟩ hnew⟩

omit hp hL hnone in
theorem leads_templateNames {span : Span} {gs known : List String} {env : Env}
    (hspan : D.span span) (hs : Ready D p o s) :
    Leads (.silent D) env s (templateNames span gs known) fun _ s' => Ready D p o s' := by
  induction gs generalizing s known with
  | nil => exact .pure hs
  | cons g gs ih =>
    unfold templateNames
    split
    · exact .after fun _ s1 hrun => ih (hs.report hspan hrun)
    · exact ih hs

theorem leads_funcSig {f : FuncInfo} (hf : f.decl.Within D.span) (hs : Ready D p o s) :
    Leads (.silent D) (envAt p o n {}) s (funcSig f) fun sig s' =>
      Ready D p o s' ∧ EnteredFunc D p o f sig := by
  have hrest : ∀ {s known}, Ready D p o s → Leads (.silent D) (envAt p o n {}) s (do
      let names ← templateNames f.decl.name.span f.generics known
      withTemplates names
        (resolveSignature f.decl.params f.decl.ret f.decl.receiver f.decl.isUnsafe))
      fun sig s' => Ready D p o s' ∧ EnteredFunc D p o f sig := by
    intro s known hs
    refine .bind (leads_templateNames hf.name hs) fun names s1 _ hs1 => .inContext ?_
    refine Leads.mono (leads_resolveSignature (n := n) hp hL hnone (.declared names) hf.params hf.ret hs1)
      fun sig s' h => ⟨h.1, names, h.2⟩
  refine .package ?_
  dsimp only
  split
  next first rest hgenerics =>
    have hfirst : D.span first.span := hf.generics first (by rw [hgenerics]; simp)
    split
    · exact .after fun _ s1 hrun => hrest (hs.report hfirst hrun)
    · exact hrest hs
  · exact hrest hs

theorem leads_declaredFields {i : StructInfo} (hi : ∀ f ∈ i.decl.fields, f.Within D.span)
    (hs : Ready D p o s) :
    Leads (.silent D) (envAt p o n {}) s (declaredFields i) fun infos s' =>
      Ready D p o s' ∧ EnteredStruct D p o i infos := by
  refine .inContext (Leads.mono (leads_fieldInfos (n := n) hp hL hnone (.declared i.generics) hi hs)
    fun infos s' h => ?_)
  obtain ⟨hs', new, rfl, hnew⟩ := h
  exact ⟨hs', hnew⟩

theorem leads_traitMethods {ms : List Syntax.MethodSig} {known : List TraitMethod}
    (hms : ∀ m ∈ ms, m.Within D.span) (hs : Ready D p o s) :
    Leads (.silent D) (envAt p o n {}) s (traitMethods ms known) fun _ s' => Ready D p o s' := by
  induction ms generalizing s known with
  | nil => exact .pure hs
  | cons m ms ih =>
    replace ih := fun known s hs => @ih s known (fun m' h => hms m' (by simp [h])) hs
    have hm := hms m (by simp)
    unfold traitMethods
    split
    · exact .after fun _ s1 hrun => ih _ s1 (hs.report hm.name hrun)
    · refine .bind (leads_resolveSignature hp hL hnone (.declared _) hm.params hm.ret hs)
        fun sig s1 _ hsig => ih _ s1 hsig.1

/-! ## Files -/

/-- What the declarations of a file say, entry by entry. -/
structure EnteredFile (D : Demand) (p : Package) (o : Options) (file : Nat) (t : FileTypes) :
    Prop where
  fields : List.Forall₂ (fun e r => r.1 = e.2 ∧ EnteredStruct D p o e.1 r.2)
    (ofFile p.structs (·.file) file) t.fields
  sigs : List.Forall₂ (fun e r => r.1 = e.2 ∧ EnteredFunc D p o e.1 r.2)
    (ofFile p.funcs (·.file) file) t.sigs

theorem leads_fileTypes {file : Nat} (hs : Ready D p o s) :
    Leads (.silent D) (envAt p o n {}) s (p.fileTypes file) fun t _ =>
      EnteredFile D p o file t := by
  refine .bind (leads_forEachCheck (I := Ready D p o) (fun e he s hs => ?_) hs)
    fun fields s1 _ hfields => .bind (leads_forEachCheck (I := Ready D p o) (Q := fun _ _ => True)
      (fun e he s hs => ?_) hfields.1) fun methods s2 _ hmethods =>
      .bind (leads_forEachCheck (I := Ready D p o) (fun e he s hs => ?_) hmethods.1)
        fun sigs s3 _ hsigs => .pure ⟨hfields.2, hsigs.2⟩
  · have hentry : p.struct e.2 = e.1 := Package.getD_of_mem_ofFile he
    refine .bind (leads_declaredFields hp hL hnone (hentry ▸ (hp.structs e.2).decl) hs)
      fun infos s' _ h => .pure ⟨h.1, rfl, h.2⟩
  · have hentry : p.trait e.2 = e.1 := Package.getD_of_mem_ofFile he
    refine .bind (leads_traitMethods hp hL hnone (hentry ▸ (hp.traits e.2).decl) hs)
      fun _ s' _ h => .pure ⟨h, trivial⟩
  · have hdecl := hp.within.funcs e.1 (Package.mem_of_mem_ofFile he)
    refine .bind (leads_funcSig hp hL hnone hdecl hs)
      fun sig s' _ h => .pure ⟨h.1, rfl, h.2⟩

end Entries

end Check

/-! ## Tables -/

section Modifications

variable {α β : Type}

/-- An entry after changes to some entries has gone through those made to it. -/
theorem getElem?_foldl_modify (g : β → α → α) (rs : List (Nat × β)) (as : Array α) (i : Nat) :
    (rs.foldl (fun as r => as.modify r.1 (g r.2)) as)[i]? =
      as[i]?.map fun a => (rs.filter (·.1 == i)).foldl (fun a r => g r.2 a) a := by
  induction rs generalizing as with
  | nil => simp
  | cons r rs ih =>
    rw [List.foldl_cons, ih, Array.getElem?_modify]
    by_cases hi : r.1 = i
    · simp [hi, Function.comp_def]
    · simp [hi]

theorem exists_foldl_eq {g : β → α → α} (hg : ∀ b b' a, g b (g b' a) = g b a) {rs : List (Nat × β)}
    (hne : rs ≠ []) (a : α) : ∃ r ∈ rs, rs.foldl (fun a r => g r.2 a) a = g r.2 a := by
  induction rs generalizing a with
  | nil => exact absurd rfl hne
  | cons r rs ih =>
    by_cases hrs : rs = []
    · subst hrs
      exact ⟨r, by simp, rfl⟩
    · obtain ⟨r', hr', he⟩ := ih hrs (g r.2 a)
      exact ⟨r', by simp [hr'], by rw [List.foldl_cons, he, hg]⟩

/-- Every entry is changed, by something that is good for it. -/
theorem exists_entry {g : β → α → α} (hg : ∀ b b' a, g b (g b' a) = g b a) {as : Array α}
    {rs : List (Nat × β)} {Good : α → β → Prop}
    (hgood : ∀ r ∈ rs, ∀ a, as[r.1]? = some a → Good a r.2)
    (hall : ∀ (i : Nat) (a : α), as[i]? = some a → ∃ r ∈ rs, r.1 = i) {x : α}
    (hx : x ∈ rs.foldl (fun as r => as.modify r.1 (g r.2)) as) :
    ∃ a b, x = g b a ∧ Good a b := by
  obtain ⟨i, hi⟩ := Array.mem_iff_getElem?.mp hx
  rw [getElem?_foldl_modify] at hi
  obtain ⟨a, ha, rfl⟩ := Option.map_eq_some_iff.mp hi
  obtain ⟨r, hr, rfl⟩ := hall i a ha
  have hne : rs.filter (·.1 == r.1) ≠ [] :=
    List.ne_nil_of_mem (List.mem_filter.mpr ⟨hr, by simp⟩)
  obtain ⟨r', hr', he⟩ := exists_foldl_eq hg hne a
  obtain ⟨hmem, hid⟩ := List.mem_filter.mp hr'
  rw [beq_iff_eq] at hid
  exact ⟨a, r'.2, he, hgood r' hmem a (hid ▸ ha)⟩

/-- Entries that were found one by one, each where it stands in the table. -/
theorem exists_of_forall2 {R : α × Nat → Nat × β → Prop} {es : List (α × Nat)}
    {rs : List (Nat × β)} (h : List.Forall₂ R es rs) :
    (∀ r ∈ rs, ∃ e ∈ es, R e r) ∧ ∀ e ∈ es, ∃ r ∈ rs, R e r := by
  induction h with
  | nil => simp
  | cons hr _ ih =>
    refine ⟨fun r hmem => ?_, fun e hmem => ?_⟩
    · rcases List.mem_cons.mp hmem with rfl | hmem
      · exact ⟨_, by simp, hr⟩
      · obtain ⟨e, he, h⟩ := ih.1 r hmem
        exact ⟨e, by simp [he], h⟩
    · rcases List.mem_cons.mp hmem with rfl | hmem
      · exact ⟨_, by simp, hr⟩
      · obtain ⟨r, hr, h⟩ := ih.2 e hmem
        exact ⟨r, by simp [hr], h⟩

theorem mem_ofFile {as : Array α} {fileOf : α → Nat} {file : Nat} {e : α × Nat} :
    e ∈ ofFile as fileOf file ↔ as[e.2]? = some e.1 ∧ fileOf e.1 = file := by
  unfold ofFile
  rw [List.mem_filter, List.mem_zipIdx_iff_getElem?, Array.getElem?_toList, beq_iff_eq]

end Modifications

section Files

variable {α β γ : Type} {D : Demand} {p q : Package} {setup : Setup} {files : Nat}
  {found : Findings}

theorem exists_result_of_mapM {f : α → Option β} {as : List α} {bs : List β} {a : α}
    (h : as.mapM f = some bs) (ha : a ∈ as) : ∃ b ∈ bs, f a = some b := by
  induction as generalizing bs with
  | nil => cases ha
  | cons a' as ih =>
    rw [List.mapM_cons] at h
    obtain ⟨b, bs', hb, hbs', rfl⟩ := exists_of_both h
    rcases List.mem_cons.mp ha with rfl | ha
    · exact ⟨b, by simp, hb⟩
    · obtain ⟨b', hb', hf⟩ := ih hbs' ha
      exact ⟨b', by simp [hb'], hf⟩

theorem mem_foldl_findings {rs : List (α × Findings)} {r : α × Findings} (hr : r ∈ rs)
    (a : Findings) :
    (∀ d ∈ r.2.diags.toList, d ∈ (rs.foldl (fun a r => a ++ r.2) a).diags.toList) ∧
      ∀ q ∈ r.2.requests.toList, q ∈ (rs.foldl (fun a r => a ++ r.2) a).requests.toList := by
  obtain ⟨hdiags, -, hrequests⟩ := Demand.foldl_findings rs a
  rw [hdiags, hrequests]
  exact ⟨fun d hd => List.mem_append_right _ (List.mem_flatMap.mpr ⟨r, hr, hd⟩),
    fun q hq => List.mem_append_right _ (List.mem_flatMap.mpr ⟨r, hr, hq⟩)⟩

/-- Each entry of a table whose results were found file by file. -/
theorem exists_entry_of_files {as : Array α} {fileOf : α → Nat}
    {rs : List (γ × Findings)} {find : Nat → Option (γ × Findings)} (sel : γ → List (Nat × β))
    (g : β → α → α) (Good : α → β → Prop) (hg : ∀ b b' a, g b (g b' a) = g b a)
    (hrs : (List.range files).mapM find = some rs)
    (hfile : ∀ r ∈ rs, ∀ file, find file = some r →
      List.Forall₂ (fun e x => x.1 = e.2 ∧ Good e.1 x.2) (ofFile as fileOf file) (sel r.1))
    (hlt : ∀ a ∈ as, fileOf a < files) {x : α}
    (hx : x ∈ (rs.flatMap (sel ·.1)).foldl (fun as r => as.modify r.1 (g r.2)) as) :
    ∃ a b, x = g b a ∧ Good a b := by
  refine exists_entry hg (fun y hy a ha => ?_) (fun i a ha => ?_) hx
  · obtain ⟨r, hr, hy⟩ := List.mem_flatMap.mp hy
    obtain ⟨file, -, hfind⟩ := Demand.exists_of_mem_mapM hrs hr
    obtain ⟨e, he, hid, hgood⟩ := (exists_of_forall2 (hfile r hr file hfind)).1 y hy
    rw [hid, (mem_ofFile.mp he).1] at ha
    cases ha
    exact hgood
  · have hin := List.mem_range.mpr (hlt a (Array.mem_of_getElem? ha))
    obtain ⟨r, hr, hfind⟩ := exists_result_of_mapM hrs hin
    obtain ⟨y, hy, hid, -⟩ := (exists_of_forall2 (hfile r hr _ hfind)).2 (a, i)
      (mem_ofFile.mpr ⟨ha, rfl⟩)
    exact ⟨y, List.mem_flatMap.mpr ⟨r, hr, hy⟩, hid⟩

theorem foldl_enterTypes (rs : List (FileTypes × Findings)) (p : Package) :
    (rs.foldl (fun p r => p.enterTypes r.1) p).structs =
        (rs.flatMap (·.1.fields)).foldl
          (fun as r => as.modify r.1 fun s => { s with fields := r.2 }) p.structs ∧
      (rs.foldl (fun p r => p.enterTypes r.1) p).funcs =
        (rs.flatMap (·.1.sigs)).foldl
          (fun as r => as.modify r.1 fun f => { f with sig := r.2 }) p.funcs := by
  induction rs generalizing p with
  | nil => exact ⟨rfl, rfl⟩
  | cons r rs ih =>
    rw [List.flatMap_cons, List.flatMap_cons, List.foldl_append, List.foldl_append]
    exact ih (p.enterTypes r.1)

/-- The table that the types of all declarations were entered in. -/
structure EnteredTable (D : Demand) (p : Package) (o : Options) (q : Package) : Prop where
  structs : ∀ s ∈ q.structs, EnteredStruct D p o s s.fields
  funcs : ∀ f ∈ q.funcs, EnteredFunc D p o f f.sig

theorem entered_resolveTypes (hp : D.CoveredPackage p) (hL : Charges D.span p setup.options False)
    (hnone : ∀ id, ¬p.Pending id) (hstructs : ∀ s ∈ p.structs, s.file < files)
    (hfuncs : ∀ f ∈ p.funcs, f.file < files)
    (h : p.resolveTypes setup files = some (q, found))
    (hclean : ∀ d ∈ found.diags.toList, D.span d.span → d.isError = false)
    (hgrants : D.Grants found) : EnteredTable D p setup.options q := by
  obtain ⟨rs, hrs, he⟩ := Option.bind_eq_some_iff.mp h
  cases he
  -- what was found in each file
  have hfile : ∀ r ∈ rs, ∀ file, p.find setup {} (p.fileTypes file) = some r →
      EnteredFile D p setup.options file r.1 := by
    intro r hr file hfind
    obtain ⟨s, hrun, hfound⟩ := run_of_find hfind
    obtain ⟨hdiags, hrequests⟩ := mem_foldl_findings hr {}
    rw [hfound] at hdiags hrequests
    have hready : Ready D p setup.options {} := by
      refine ⟨⟨.start, ?_⟩, Demand.coveredState_start⟩
      rintro ⟨id, -, h | h⟩ <;> cases h
    exact leads_fileTypes hp hL hnone hready hrun
      ⟨fun d hd => hclean d (hdiags d hd), fun q hq => hgrants q (hrequests q hq)⟩
  obtain ⟨hstructs', hfuncs'⟩ := foldl_enterTypes rs p
  constructor
  · intro s hs
    obtain ⟨s0, fields, rfl, hgood⟩ := exists_entry_of_files FileTypes.fields
      (fun fields (s : StructInfo) => { s with fields }) (EnteredStruct D p setup.options)
      (fun _ _ _ => rfl) hrs (fun r hr file hfind => (hfile r hr file hfind).fields) hstructs
      (hstructs' ▸ hs)
    exact hgood
  · intro f hf
    obtain ⟨f0, sig, rfl, hgood⟩ := exists_entry_of_files FileTypes.sigs
      (fun sig (f : FuncInfo) => { f with sig }) (EnteredFunc D p setup.options)
      (fun _ _ _ => rfl) hrs (fun r hr file hfind => (hfile r hr file hfind).sigs) hfuncs
      (hfuncs' ▸ hf)
    exact hgood

end Files

end JaneCheck
