import JaneCheck.Package.Traits
import JaneCheck.Proofs.Collected
import JaneCheck.Proofs.Demand.Covering
import JaneCheck.Proofs.Machine
import JaneCheck.Proofs.StructOrder
import JaneCheck.Proofs.Worklist

/-!
# Phases keep all covered

A phase runs its checks from a fresh state and enters what they give into the
table. So a table whose types are covered stays so, from the declarations to
the last instance, and with it all that the phases find. What they find lies at
the places of the demand.
-/

namespace JaneCheck.Demand

open Check Package

variable {D : Demand}

structure CoveredFindings (D : Demand) (f : Findings) : Prop where
  diags : ∀ d ∈ f.diags.toList, D.span d.span
  typings : ∀ t ∈ f.typings.toList, Covered.By D t
  requests : ∀ r ∈ f.requests.toList, D.Sound r

/-- The demand has all that was asked for. -/
def Grants (D : Demand) (f : Findings) : Prop := ∀ r ∈ f.requests.toList, D.request r

theorem grants_append {a b : Findings} : D.Grants (a ++ b) ↔ D.Grants a ∧ D.Grants b := by
  simp [Grants, or_imp, forall_and]

theorem coveredFindings_append {a b : Findings} (ha : D.CoveredFindings a)
    (hb : D.CoveredFindings b) : D.CoveredFindings (a ++ b) where
  diags d hd := by
    rw [Findings.diags_append, Array.toList_append, List.mem_append] at hd
    exact hd.elim (ha.diags d) (hb.diags d)
  typings t ht := by
    rw [Findings.typings_append, Array.toList_append, List.mem_append] at ht
    exact ht.elim (ha.typings t) (hb.typings t)
  requests r hr := by
    rw [Findings.requests_append, Array.toList_append, List.mem_append] at hr
    exact hr.elim (ha.requests r) (hb.requests r)

theorem coveredFindings_ofDiags {ds : List Diagnostic} (h : ∀ d ∈ ds, D.span d.span) :
    D.CoveredFindings (.ofDiags ds) :=
  ⟨h, nofun, nofun⟩

theorem coveredContext_start : D.CoveredContext {} := ⟨by simp, covers_void⟩

theorem coveredState_start : D.CoveredState {} := by constructor <;> simp [Covered.By]

variable {p q : Package} {setup : Setup} {found : Findings} {c : Context} {files : Nat}
  {r : Request} {i : Instances}

theorem covered_find {x : Check α} {R : α → Prop} {a : α} (hp : D.CoveredPackage p)
    (hc : D.CoveredContext c) (hx : (covering hp setup.options).Obeys x R)
    (h : p.find setup c x = some (a, found)) (hr : D.Grants found) :
    R a ∧ D.CoveredFindings found := by
  obtain ⟨s, hrun, rfl⟩ := Package.run_of_find h
  obtain ⟨hs, ha⟩ := hx setup.depth c {} ⟨hc, coveredState_start⟩ hrun hr
  exact ⟨ha, hs.diags, hs.typings, hs.requests⟩

/-! ## Aliases, enums, globals -/

theorem forall_of_zip {P : β → Prop} {as : List α} {bs : List β} (hlen : bs.length = as.length)
    (h : ∀ e ∈ as.zip bs, P e.2) : ∀ b ∈ bs, P b := by
  intro b hb
  rw [← List.map_snd_zip (Nat.le_of_eq hlen)] at hb
  obtain ⟨e, he, rfl⟩ := List.mem_map.mp hb
  exact h e he

theorem forall_mem_zip {Q : α → Prop} {as : Array α} {bs : List β} {f : α → β → α}
    (h : ∀ a ∈ as, Q a) (hf : ∀ a b, Q a → Q (f a b)) :
    ∀ a ∈ ((as.toList.zip bs).map fun e => f e.1 e.2).toArray, Q a := by
  intro a ha
  obtain ⟨e, he, rfl⟩ := List.mem_map.mp (List.mem_toArray.mp ha)
  exact hf e.1 e.2 (h e.1 (Array.mem_toList_iff.mp (List.of_mem_zip he).1))

section Entries

variable [Inhabited α]

theorem forall_zip {P : Nat → α → Prop} {as : Array α} {bs : List β} {f : α → β → α}
    (h : ∀ i, P i (as.getD i default)) (hlen : bs.length = as.size)
    (hf : ∀ i a b, P i a → (i, b) ∈ (List.range as.size).zip bs → P i (f a b)) (i : Nat) :
    P i (((as.toList.zip bs).map fun e => f e.1 e.2).toArray.getD i default) := by
  rw [Array.getD_eq_getD_getElem?, List.getElem?_toArray, List.getElem?_map]
  have hi := h i
  rw [Array.getD_eq_getD_getElem?] at hi
  by_cases hlt : i < as.size
  · have hb : i < bs.length := hlen ▸ hlt
    have he : (as.toList.zip bs)[i]? = some (as[i], bs[i]) :=
      List.getElem?_zip_eq_some.mpr ⟨by simp [hlt], List.getElem?_eq_getElem hb⟩
    have hmem : (i, bs[i]) ∈ (List.range as.size).zip bs :=
      List.mem_iff_getElem.mpr ⟨i, by simp; omega, by simp⟩
    rw [Array.getElem?_eq_getElem hlt] at hi
    rw [he]
    exact hf i _ _ hi hmem
  · rw [Array.getElem?_eq_none (by omega)] at hi
    rw [List.getElem?_eq_none (by simp; omega)]
    exact hi

theorem forall_modify {P : Nat → α → Prop} {as : Array α} {es : List (Nat × β)} {f : β → α → α}
    (h : ∀ i, P i (as.getD i default)) (hf : ∀ e ∈ es, ∀ a, P e.1 a → P e.1 (f e.2 a)) (i : Nat) :
    P i ((es.foldl (fun as e => as.modify e.1 (f e.2)) as).getD i default) := by
  induction es generalizing as with
  | nil => exact h i
  | cons e es ih =>
    refine ih (fun j => ?_) fun e' he' => hf e' (by simp [he'])
    by_cases hj : e.1 = j ∧ j < as.size
    · obtain ⟨rfl, hlt⟩ := hj
      have hm : (as.modify e.1 (f e.2)).getD e.1 default = f e.2 (as.getD e.1 default) := by
        rw [Array.getD_eq_getD_getElem?, Array.getElem?_modify, if_pos rfl,
          Array.getD_eq_getD_getElem?, Array.getElem?_eq_getElem hlt]
        rfl
      exact hm ▸ hf e (by simp) _ (h e.1)
    · have hm : (as.modify e.1 (f e.2)).getD j default = as.getD j default := by
        simp only [Array.getD_eq_getD_getElem?, Array.getElem?_modify]
        split
        next heq =>
          rw [Array.getElem?_eq_none (by omega)]
          rfl
        next => rfl
      exact hm ▸ h j

end Entries

theorem covered_resolveAliases (hp : D.CoveredPackage p)
    (h : p.resolveAliases setup = some (q, found)) (hr : D.Grants found) :
    D.CoveredPackage q ∧ D.CoveredFindings found := by
  obtain ⟨⟨types, f⟩, hfind, he⟩ := Option.bind_eq_some_iff.mp h
  cases he
  have halias (id : AliasId) (hid : id ∈ List.range p.aliases.size) :
      (covering hp setup.options).Obeys (aliasType id) fun o =>
        ∀ u ∈ o, D.Covers u ∧ D.Target id u :=
    have hid := .inl (List.mem_range.mp hid)
    obeys_of_asks fun _ => .aliasType hid ((allows_within hp).target hid)
  obtain ⟨⟨hlen, htypes⟩, hfound⟩ :=
    covered_find hp coveredContext_start (.forEachCheck halias) hfind hr
  rw [List.length_range] at hlen
  refine ⟨{ hp with within := { hp.within with aliases := ?_ }, aliases := ?_ }, hfound⟩
  · exact forall_mem_zip (f := fun a t => { a with type := t }) hp.within.aliases fun _ _ h => h
  exact forall_zip (f := fun a t => { a with type := t }) hp.aliases hlen
    fun i a t ha ht => { ha with type := htypes (i, t) ht }

theorem covered_resolveEnums (hp : D.CoveredPackage p) (h : p.resolveEnums setup = some (q, found))
    (hr : D.Grants found) : D.CoveredPackage q ∧ D.CoveredFindings found := by
  obtain ⟨⟨items, f⟩, hfind, he⟩ := Option.bind_eq_some_iff.mp h
  cases he
  have hdecls : ∀ d ∈ p.enums.toList.map (·.decl), d.Within D.span := by
    intro d hd
    obtain ⟨e, he, rfl⟩ := List.mem_map.mp hd
    exact hp.within.enums e (Array.mem_toList_iff.mp he)
  obtain ⟨⟨hlen, hitems⟩, hfound⟩ := covered_find hp coveredContext_start
    (.forEachCheck fun d hd => keeps_enumItems (hdecls d hd)) hfind hr
  replace hitems := forall_of_zip hlen hitems
  rw [List.length_map, Array.length_toList] at hlen
  refine ⟨{ hp with within := { hp.within with enums := ?_ }, enums := ?_ }, hfound⟩
  · exact forall_mem_zip (f := fun e (b : Ty × List (String × Const)) =>
      { e with base := b.1, items := b.2 }) hp.within.enums fun _ _ h => h
  refine forall_zip (f := fun e b => { e with base := b.1, items := b.2 }) hp.enums hlen
    fun i e b he hb => { he with base := ?_ }
  exact (hitems b (List.of_mem_zip hb).2).1

theorem covered_computeGlobals (hp : D.CoveredPackage p)
    (h : p.computeGlobals setup = some (q, found)) (hr : D.Grants found) :
    D.CoveredPackage q ∧ D.CoveredFindings found := by
  obtain ⟨⟨values, f⟩, hfind, he⟩ := Option.bind_eq_some_iff.mp h
  cases he
  obtain ⟨⟨hlen, hvalues⟩, hfound⟩ := covered_find hp ⟨by simp, covers_void⟩
    (.forEachCheck fun id hid => obeys_of_asks fun _ =>
      asks_globalValue (allows_within hp) (.inl (List.mem_range.mp hid))) hfind hr
  replace hvalues := forall_of_zip hlen hvalues
  rw [List.length_range] at hlen
  refine ⟨{ hp with within := { hp.within with globals := ?_ }, globals := ?_ }, hfound⟩
  · exact forall_mem_zip (f := fun g v => { g with value := some v }) hp.within.globals
      fun _ _ h => h
  refine forall_zip (f := fun g v => { g with value := some v }) hp.globals hlen fun i g v hg hv =>
    { hg with value := ?_ }
  exact covered_some (hvalues v (List.of_mem_zip hv).2)

/-! ## Signatures -/

theorem covered_enterTypes {t : FileTypes} (hp : D.CoveredPackage p) (ht : D.CoveredTypes t) :
    D.CoveredPackage (p.enterTypes t) :=
  { hp with
    within := { hp.within with
      structNames := forall_mem_foldl_modify (f := fun fields (s : StructInfo) => { s with fields })
        hp.within.structNames fun _ _ h => h
      funcs := forall_mem_foldl_modify (f := fun sig (f : FuncInfo) => { f with sig })
        hp.within.funcs fun _ _ h => h
      impls := fun i hi => by
        have hsize := size_foldl_modify t.sigs (fun sig (f : FuncInfo) => { f with sig }) p.funcs
        exact ⟨(hp.within.impls i hi).1, fun m hm => hsize ▸ (hp.within.impls i hi).2 m hm⟩ }
    structs := forall_modify (f := fun fields (s : StructInfo) => { s with fields }) hp.structs
      fun e he _ hs => { hs with fields := ht.fields e he }
    traits := forall_modify (f := fun methods (t : TraitInfo) => { t with methods }) hp.traits
      fun e he _ hm => { hm with methods := ht.methods e he }
    funcs := forall_modify (f := fun sig (f : FuncInfo) => { f with sig }) hp.funcs
      fun e he _ hf => { hf with sig := ht.sigs e he } }

/-! ## Files -/

theorem exists_of_mem_mapM {f : α → Option β} {as : List α} {bs : List β} {b : β}
    (h : as.mapM f = some bs) (hb : b ∈ bs) : ∃ a ∈ as, f a = some b := by
  induction as generalizing bs with
  | nil =>
    cases h
    cases hb
  | cons a as ih =>
    rw [List.mapM_cons] at h
    obtain ⟨b', bs', hb', hbs', rfl⟩ := exists_of_both h
    rcases List.mem_cons.mp hb with rfl | hb
    · exact ⟨a, by simp, hb'⟩
    · obtain ⟨a', ha', hf⟩ := ih hbs' hb
      exact ⟨a', by simp [ha'], hf⟩

theorem foldl_findings (rs : List (α × Findings)) (a : Findings) :
    (rs.foldl (fun a r => a ++ r.2) a).diags.toList =
        a.diags.toList ++ rs.flatMap (·.2.diags.toList) ∧
      (rs.foldl (fun a r => a ++ r.2) a).typings.toList =
        a.typings.toList ++ rs.flatMap (·.2.typings.toList) ∧
      (rs.foldl (fun a r => a ++ r.2) a).requests.toList =
        a.requests.toList ++ rs.flatMap (·.2.requests.toList) := by
  induction rs generalizing a with
  | nil => simp
  | cons r rs ih => simp [(ih _).1, (ih _).2]

theorem covered_files [Covered α] {x : Nat → Check α} {rs : List (α × Findings)}
    (hp : D.CoveredPackage p) (hx : ∀ file, (covering hp setup.options).Keeps (x file))
    (h : (List.range files).mapM (fun file => p.find setup {} (x file)) = some rs)
    (hr : D.Grants (rs.foldl (fun a r => a ++ r.2) {})) :
    (∀ r ∈ rs, Covered.By D r.1) ∧ D.CoveredFindings (rs.foldl (fun a r => a ++ r.2) {}) := by
  obtain ⟨hdiags, htypings, hrequests⟩ := foldl_findings rs {}
  have hall : ∀ r ∈ rs, Covered.By D r.1 ∧ D.CoveredFindings r.2 := by
    intro r hmem
    obtain ⟨file, _, hfind⟩ := exists_of_mem_mapM h hmem
    refine covered_find hp coveredContext_start (hx file) hfind fun q hq => hr q ?_
    rw [hrequests]
    exact List.mem_append_right _ (List.mem_flatMap.mpr ⟨r, hmem, hq⟩)
  refine ⟨fun r hr => (hall r hr).1, fun d hd => ?_, fun t ht => ?_, fun q hq => ?_⟩
  · rw [hdiags] at hd
    obtain ⟨r, hr, hd⟩ := List.mem_flatMap.mp hd
    exact (hall r hr).2.diags d hd
  · rw [htypings] at ht
    obtain ⟨r, hr, ht⟩ := List.mem_flatMap.mp ht
    exact (hall r hr).2.typings t ht
  · rw [hrequests] at hq
    obtain ⟨r, hr, hq⟩ := List.mem_flatMap.mp hq
    exact (hall r hr).2.requests q hq

theorem covered_resolveTypes (hp : D.CoveredPackage p)
    (h : p.resolveTypes setup files = some (q, found)) (hr : D.Grants found) :
    D.CoveredPackage q ∧ D.CoveredFindings found := by
  obtain ⟨rs, hrs, he⟩ := Option.bind_eq_some_iff.mp h
  cases he
  obtain ⟨htypes, hfound⟩ := covered_files hp keeps_fileTypes hrs hr
  refine ⟨?_, hfound⟩
  exact List.foldlRecOn (motive := D.CoveredPackage) rs _ hp fun q hq r hr =>
    covered_enterTypes hq (htypes r hr)

/-! ## Bodies -/

theorem formed_nil (id : StructId) : D.Formed id (D.name id) [] :=
  fun _ => ⟨rfl, .inl rfl⟩

section Bodies

variable (hp : D.CoveredPackage p) (o : Options)

theorem keeps_instance {id : FuncId} {ownerTypes types : List Ty}
    (hdecl : (p.func id).decl.Within D.span)
    (ho : ∀ t ∈ ownerTypes, D.Covers t) (ht : ∀ t ∈ types, D.Covers t)
    (hformed : ∀ owner ∈ (p.func id).owner, D.Formed owner (D.name owner) ownerTypes) :
    (covering hp o).Keeps (checkBody id ownerTypes types) :=
  keeps_checkBody trivial trivial trivial hdecl ho ht hformed

theorem keeps_checkFile (file : Nat) : (covering hp o).Keeps (p.checkFile file) := by
  refine .then (.listForM fun e _ => ?_) fun _ => .listForM fun e he => ?_
  · dsimp only
    split
    · exact .pure trivial
    · exact .discard (keeps_checkStruct _ (by simp))
  · have hentry : p.func e.2 = e.1 := getD_of_mem_ofFile he
    have hdecl := hp.within.funcs e.1 (mem_of_mem_ofFile he)
    have hsig := hentry ▸ (hp.funcs e.2).sig
    refine .then (keeps_checkParamsFrom _ hdecl.params (covers_function.mp hsig).1) fun _ => ?_
    split
    · exact keeps_instance hp o (hentry ▸ hdecl) (by simp) (by simp) fun _ _ => formed_nil _
    · exact .pure trivial

end Bodies

theorem covered_checkBodies (hp : D.CoveredPackage p) (h : p.checkBodies setup files = some found)
    (hr : D.Grants found) : D.CoveredFindings found := by
  obtain ⟨rs, hrs, he⟩ := Option.bind_eq_some_iff.mp h
  cases he
  exact (covered_files hp (keeps_checkFile hp _) hrs hr).2

/-! ## Traits and cycles -/

theorem places_traitProblems {P : Span → Prop} (hp : p.Within P) :
    ∀ d ∈ p.traitProblems, P d.span := by
  intro d hd
  obtain ⟨i, hi, hd⟩ := List.mem_flatMap.mp hd
  obtain ⟨hspan, hmethods⟩ := hp.impls i (Array.mem_toList_iff.mp hi)
  rcases List.mem_append.mp hd with hd | hd
  · obtain ⟨m, -, rfl⟩ := List.mem_map.mp hd
    exact hspan
  · obtain ⟨f, hf, rfl⟩ := List.mem_map.mp hd
    obtain ⟨m, hm, rfl⟩ := List.mem_map.mp (List.mem_filter.mp hf).1
    exact (hp.funcs _ (getD_mem (hmethods m hm))).name

theorem places_orderStructs {P : Span → Prop} (hp : p.Within P) :
    ∀ d ∈ p.orderStructs.2, P d.span := by
  intro d hd
  obtain ⟨id, hid, rfl⟩ := cycles_orderStructs hd
  exact hp.structNames _ (getD_mem hid)

/-! ## Instances -/

theorem keeps_checkFuncInstance (hp : D.CoveredPackage p) (o : Options) {id : FuncId}
    {types : List Ty}
    (hid : (D.function id).Within D.span) (ht : ∀ t ∈ types, D.Covers t) :
    (covering hp o).Keeps (checkFuncInstance id types) := by
  refine .package ?_
  split
  · exact .pure trivial
  · exact keeps_instance hp o ((hp.funcs id).decl ▸ hid) (by simp) ht fun _ _ => formed_nil _

theorem keeps_checkStructInstance (hp : D.CoveredPackage p) (o : Options) {id : StructId}
    {types : List Ty}
    (ht : ∀ t ∈ types, D.Covers t) (hformed : D.Formed id (D.name id) types) :
    (covering hp o).Keeps (checkStructInstance id types) := by
  refine .package (.bind (keeps_checkStruct id ht) fun layout hl => ?_)
  refine .then (.listForM fun m hm => ?_) fun _ => .pure hl
  have howner := (hp.structs id).methods m (List.mem_reverse.mp hm)
  have hf := hp.funcs m.2
  dsimp only
  split
  · exact .pure trivial
  · refine keeps_instance hp o (hf.decl ▸ hp.placed.method howner) ht (by simp) fun owner ho => ?_
    rw [hf.owner, howner] at ho
    cases ho
    exact hformed

theorem covered_checkInstance {c : Checked} (hp : D.CoveredPackage p) (hr : D.request r)
    (hs : D.Sound r) (h : p.checkInstance setup r.template r.types = some c)
    (hc : D.Grants c.findings) : Covered.By D c.layout ∧ D.CoveredFindings c.findings := by
  obtain ⟨template, types, span⟩ := r
  cases template with
  | func id =>
    obtain ⟨⟨u, found⟩, hfind, he⟩ := Option.bind_eq_some_iff.mp h
    cases he
    have hfound := covered_find hp coveredContext_start
      (keeps_checkFuncInstance hp _ (hs.decl id rfl hp.strict) hs.types) hfind hc
    exact ⟨covered_nil, hfound.2⟩
  | struct id =>
    obtain ⟨⟨layout, found⟩, hfind, he⟩ := Option.bind_eq_some_iff.mp h
    cases he
    have hformed : D.Formed id (D.name id) types :=
      fun hstrict => ⟨rfl, .inr (.inr ⟨hs.arity hstrict id rfl, span, hr⟩)⟩
    exact covered_find hp coveredContext_start
      (keeps_checkStructInstance hp _ hs.types hformed) hfind hc

structure CoveredInstances (D : Demand) (i : Instances) : Prop where
  diags : ∀ d ∈ i.findings.diags.toList, D.span d.span
  typings : ∀ t ∈ i.findings.typings.toList, Covered.By D t
  layouts : ∀ l ∈ i.layouts.toList, ∀ f ∈ l.fields, D.Covers f.2

theorem covered_enter {c : Checked} (hi : D.CoveredInstances i) (hl : Covered.By D c.layout)
    (hf : D.CoveredFindings c.findings) : D.CoveredInstances (i.enter p r c).settled where
  diags d hd := by
    have hd : d ∈ i.findings.diags.toList ++ c.findings.diags.toList := by
      simpa [Instances.settled, Instances.enter] using hd
    exact (List.mem_append.mp hd).elim (hi.diags d) (hf.diags d)
  typings t ht := by
    have ht : t ∈ i.findings.typings.toList ++ c.findings.typings.toList := by
      simpa [Instances.settled, Instances.enter] using ht
    exact (List.mem_append.mp ht).elim (hi.typings t) (hf.typings t)
  layouts := by
    dsimp only [Instances.settled, Instances.enter]
    split
    · exact forall_mem_push hi.layouts fun f hf => (hl f hf).2
    · exact hi.layouts

theorem covered_refuse (hi : D.CoveredInstances i) (hr : D.Sound r) :
    D.CoveredInstances (i.refuse p r) where
  diags := forall_mem_push hi.diags hr.place
  typings := hi.typings
  layouts := hi.layouts

/-- The queue keeps all covered: what it serves is in the demand. -/
theorem covered_drains {limit : Nat} {queue : Instances.Queue} {out : Instances}
    {events : List Instances.Event} (hp : D.CoveredPackage p)
    (h : Instances.Drains p (p.checkInstance setup) limit queue i events out)
    (hq : ∀ e ∈ queue, D.request e.1 ∧ D.Sound e.1)
    (hev : ∀ e ∈ events, ∀ r ∈ e.requests, D.request r) (hi : D.CoveredInstances i) :
    D.CoveredInstances out ∧ ∀ e ∈ events, D.Sound e.request := by
  induction h with
  | done => exact ⟨hi, by simp⟩
  | known _ _ ih => exact ih (fun e he => hq e (by simp [he])) hev hi
  | @refuse r d queue i out events _ _ _ ih =>
    have hr : D.Sound r := (hq (r, d) (by simp)).2
    obtain ⟨hout, hsound⟩ := ih (fun e he => hq e (by simp [he])) (fun e he => hev e (by simp [he]))
      (covered_refuse hi hr)
    exact ⟨hout, List.forall_mem_cons.mpr ⟨hr, hsound⟩⟩
  | @check r d queue i out events c _ _ hck _ ih =>
    obtain ⟨hr, hs⟩ := hq (r, d) (by simp)
    have hc : D.Grants c.findings := hev (.check r c) (by simp)
    obtain ⟨hl, hf⟩ := covered_checkInstance hp hr hs hck hc
    have hqueue : ∀ e ∈ queue ++ Instances.atDepth (d + 1) c.findings.requests.toList,
        D.request e.1 ∧ D.Sound e.1 := by
      intro e he
      rcases List.mem_append.mp he with he | he
      · exact hq e (by simp [he])
      · obtain ⟨r', hr', rfl⟩ := List.mem_map.mp he
        exact ⟨hc r' hr', hf.requests r' hr'⟩
    obtain ⟨hout, hsound⟩ := ih hqueue (fun e he => hev e (by simp [he])) (covered_enter hi hl hf)
    exact ⟨hout, List.forall_mem_cons.mpr ⟨hs, hsound⟩⟩

end JaneCheck.Demand
