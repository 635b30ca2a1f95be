import JaneCheck.Proofs.Collected
import JaneCheck.Proofs.Demand.Phases
import JaneCheck.Proofs.Parsed
import JaneCheck.Report

/-!
# The stages of a check

`checkCollected` gives the last table and drops those before it. `Stages` keeps
the table after each phase, what each phase found and the events of the queue.
What is asked for on the way is a demand that covers all types of all tables.
-/

namespace JaneCheck

/-! ## What a report keeps of the findings -/

namespace Report

theorem mem_of_mem_dropRepeats {same : α → α → Bool} {as : List α} {a : α}
    (h : a ∈ dropRepeats same as) : a ∈ as := by
  have hgo : ∀ (last : α) (as : List α), a ∈ dropRepeats.go same last as → a ∈ as := by
    intro last as h
    induction as generalizing last with
    | nil => exact h
    | cons b as ih =>
      unfold dropRepeats.go at h
      split at h
      · exact List.mem_cons_of_mem b (ih last h)
      · exact (List.mem_cons.mp h).elim (fun he => he ▸ List.mem_cons_self)
          fun h => List.mem_cons_of_mem b (ih b h)
  cases as with
  | nil => exact h
  | cons b as =>
    exact (List.mem_cons.mp h).elim (fun he => he ▸ List.mem_cons_self)
      fun h => List.mem_cons_of_mem b (hgo b as h)

/-- Where only equal elements count as repeated, none is lost. -/
theorem mem_dropRepeats [BEq α] [LawfulBEq α] {as : List α} {a : α} (h : a ∈ as) :
    a ∈ dropRepeats (· == ·) as := by
  have hgo : ∀ (last : α) (as : List α), a ∈ as →
      a = last ∨ a ∈ dropRepeats.go (· == ·) last as := by
    intro last as h
    induction as generalizing last with
    | nil => cases h
    | cons b as ih =>
      unfold dropRepeats.go
      split
      next hb =>
        rw [beq_iff_eq] at hb
        rcases List.mem_cons.mp h with rfl | h
        · exact .inl hb.symm
        · exact ih last h
      next =>
        rcases List.mem_cons.mp h with rfl | h
        · exact .inr List.mem_cons_self
        · exact .inr ((ih b h).elim (fun he => he ▸ List.mem_cons_self) (List.mem_cons_of_mem b))
  cases as with
  | nil => cases h
  | cons b as =>
    rcases List.mem_cons.mp h with rfl | h
    · exact List.mem_cons_self
    · exact (hgo b as h).elim (fun he => he ▸ List.mem_cons_self) (List.mem_cons_of_mem b)

theorem mem_of_mem_typingsOf {file : Nat} {ts : List Typing} {t : Typing}
    (h : t ∈ typingsOf file ts) : t ∈ ts :=
  (List.mem_filter.mp (List.mem_mergeSort.mp (mem_of_mem_dropRepeats h))).1

theorem mem_diagsOf {ds : List Diagnostic} {d : Diagnostic} (h : d ∈ ds) :
    d ∈ diagsOf d.span.file ds :=
  mem_dropRepeats (List.mem_mergeSort.mpr (List.mem_filter.mpr ⟨h, by simp⟩))

/-! ## Sources -/

section Files

/-! `F` holds of the files that can be parsed, so all declarations lie in files of `F`. -/

variable {sources : List Source} {F : Nat → Prop}
  (hF : ∀ {file s p}, sources[file]? = some s → Syntax.parse file s.text = .ok p → F file)

include hF

theorem within_parseAll :
    ∀ p ∈ (parseAll sources).map programOf, ∀ i ∈ p, i.Within (F ·.file) := by
  intro p hp
  obtain ⟨parsed, hparsed, rfl⟩ := List.mem_map.mp hp
  obtain ⟨⟨s, file⟩, hs, rfl⟩ := List.mem_map.mp hparsed
  dsimp only
  cases h : Syntax.parse file s.text with
  | error e => simp [programOf]
  | ok program =>
    exact Syntax.parse_within F (hF (List.mk_mem_zipIdx_iff_getElem?.mp hs) h) h

theorem sound_files :
    (Package.collect ((parseAll sources).map programOf)).Sound (F ·.file) (· < sources.length) := by
  have hlength : ((parseAll sources).map programOf).length = sources.length := by simp [parseAll]
  have hcollect := Package.sound_collect (within_parseAll hF)
  rw [hlength] at hcollect
  exact hcollect

end Files

theorem sound_parseAll (sources : List Source) :
    (Package.collect ((parseAll sources).map programOf)).Sound
      (·.file < sources.length) (· < sources.length) :=
  sound_files fun hs _ => (List.getElem?_eq_some_iff.mp hs).1

/-- How the declarations of some sources are checked. -/
def setupOf (options : Options) (sources : List Source) : Package.Setup :=
  setupFor options (sources.zip (parseAll sources))

section Tables

variable {options : Options} {sources : List Source} {r : Report}

/-- The table that a report is made from, and what it takes from it. -/
def MadeFrom (r : Report) (sources : List Source) (setup : Package.Setup) (p : Package)
    (order : List StructId) (out : Package.Instances) : Prop :=
  checkCollected setup sources.length (Package.collect ((parseAll sources).map programOf)) =
      some (p, order, out) ∧
    r.combinations = combinationsOf p out.ledger ∧ r.instances = out.layouts.toList ∧
    (∀ f ∈ r.files, ∃ file, f.typings = typingsOf file out.findings.typings.toList) ∧
    ∀ file < sources.length, ∃ f ∈ r.files, f.diags = diagsOf file out.findings.diags.toList

theorem exists_table_of_check (h : check options sources = some r) :
    ∃ p order out, r.MadeFrom sources (setupOf options sources) p order out := by
  obtain ⟨⟨p, order, out⟩, hcheck, he⟩ := Option.bind_eq_some_iff.mp h
  cases he
  rw [merge_parsed] at hcheck
  refine ⟨p, order, out, hcheck, rfl, rfl, fun f hf => ?_, fun file hfile => ?_⟩
  · obtain ⟨e, -, rfl⟩ := List.mem_map.mp hf
    exact ⟨e.2, rfl⟩
  · have hlength : file < ((sources.zip (parseAll sources)).zipIdx).length := by
      simpa [parseAll] using hfile
    refine ⟨_, List.mem_map.mpr ⟨_, List.getElem_mem hlength, rfl⟩, ?_⟩
    simp [fileReport]

theorem exists_of_check (h : check options sources = some r) :
    ∃ setup p order out, r.MadeFrom sources setup p order out :=
  ⟨_, exists_table_of_check h⟩

end Tables

end Report

/-! ## Stages -/

namespace Report

open Package.Instances in
/-- A check of collected declarations, with the tables and findings on the way. -/
structure Stages (setup : Package.Setup) (files : Nat) (c : Package.Collected) (p : Package)
    (out : Package.Instances) where
  aliased : Package
  enumerated : Package
  typed : Package
  aliases : Findings
  enums : Findings
  types : Findings
  globals : Findings
  bodies : Findings
  found : Findings
  events : List Event
  resolveAliases : c.package.resolveAliases setup = some (aliased, aliases)
  resolveEnums : aliased.resolveEnums setup = some (enumerated, enums)
  resolveTypes : enumerated.resolveTypes setup files = some (typed, types)
  computeGlobals : typed.computeGlobals setup = some (p, globals)
  checkBodies : p.checkBodies setup files = some bodies
  found_eq : Findings.ofDiags c.diags.toList ++ aliases ++ enums ++ types ++ globals ++
    .ofDiags p.traitProblems ++ .ofDiags p.orderStructs.2 ++ bodies = found
  drains : Drains p (p.checkInstance setup) setup.options.maxDepth
    (atDepth 0 found.requests.toList) (settled { findings := found }) events out

variable {setup : Package.Setup} {files : Nat} {c : Package.Collected} {p : Package}
  {out : Package.Instances}

theorem exists_stages {order : List StructId}
    (h : checkCollected setup files c = some (p, order, out)) :
    Nonempty (Stages setup files c p out) := by
  obtain ⟨⟨p1, aliases⟩, h1, h⟩ := Option.bind_eq_some_iff.mp h
  obtain ⟨⟨p2, enums⟩, h2, h⟩ := Option.bind_eq_some_iff.mp h
  obtain ⟨⟨p3, types⟩, h3, h⟩ := Option.bind_eq_some_iff.mp h
  obtain ⟨⟨p4, globals⟩, h4, h⟩ := Option.bind_eq_some_iff.mp h
  obtain ⟨bodies, h5, h⟩ := Option.bind_eq_some_iff.mp h
  obtain ⟨out', h6, h⟩ := Option.bind_eq_some_iff.mp h
  cases h
  obtain ⟨events, hrun⟩ := Package.Instances.drains_serveLevels (d := 0) (Nat.zero_add _) h6
  exact ⟨⟨p1, p2, p3, aliases, enums, types, globals, bodies, _, events, h1, h2, h3, h4, h5, rfl,
    hrun⟩⟩

namespace Stages

variable (S : Stages setup files c p out) {d : Diagnostic}

theorem diags_found (h : d ∈ S.found.diags.toList) : d ∈ out.findings.diags.toList := by
  rw [S.drains.diags]
  exact List.mem_append_left _ h

theorem diags_phase {f : Findings} (hf : f ∈ [S.aliases, S.enums, S.types, S.globals, S.bodies])
    (h : d ∈ f.diags.toList) : d ∈ out.findings.diags.toList := by
  refine S.diags_found ?_
  rw [← S.found_eq]
  simp only [List.mem_cons, List.not_mem_nil, or_false] at hf
  rcases hf with rfl | rfl | rfl | rfl | rfl <;> simp_all

/-- All that was asked for. -/
def requests : List Request :=
  S.found.requests.toList ++ S.events.flatMap Package.Instances.Event.requests

end Stages

end Report

namespace Demand

/-! ## The demand of a check -/

/-- The demand for the given requests over a table of declarations within `P`. -/
def ofPackage (P : Span → Prop) (p : Package) (requests : List Request) : Demand where
  toOutline := p.outline
  strict := True
  request r := r ∈ requests
  span := P

theorem forall_getD [Inhabited α] {Q : α → Prop} {as : Array α} (h : ∀ a ∈ as, Q a)
    (hd : Q default) (i : Nat) : Q (as.getD i default) := by
  rw [Array.getD_eq_getD_getElem?]
  cases he : as[i]? with
  | none => exact hd
  | some a => exact h a (Array.mem_of_getElem? he)

section Declared

variable {P : Span → Prop} {F : Nat → Prop} {p : Package} {requests : List Request}

theorem within_declared (hp : p.Declared P F) : p.Within P where
  structNames := hp.structNames
  enums e he := (hp.enums e he).2
  funcs f hf := (hp.funcs f hf).2
  aliases a ha := (hp.aliases a ha).2
  globals g hg := (hp.globals g hg).2
  impls i hi := ⟨hp.implSpans i hi, fun m hm =>
    have ⟨_, hf, _⟩ := (hp.impls i hi).2 m hm
    (Array.getElem?_eq_some_iff.mp hf).1⟩

theorem placed_declared (hp : p.Declared P F) : (ofPackage P p requests).Placed where
  typeAlias h := (hp.aliases _ (getD_mem (hp.lt_aliases h))).2
  global h := (hp.globals _ (getD_mem (hp.lt_globals h))).2
  function h := (hp.funcs _ (getD_mem (hp.lt_funcs h))).2
  method {id owner} h := by
    -- the entry that an id outside of the table stands for has no owner
    have hlt : id < p.funcs.size := by
      refine Nat.lt_of_not_le fun hle => ?_
      have howner : (p.func id).owner = some owner := h
      rw [Package.func, Array.getD_eq_getD_getElem?, Array.getElem?_eq_none hle] at howner
      cases howner
    exact (hp.funcs _ (getD_mem hlt)).2

/-- Declarations alone mention no instance. -/
theorem covered_declared (hp : p.Declared P F) : (ofPackage P p requests).CoveredPackage p where
  strict := trivial
  placed := placed_declared hp
  within := within_declared hp
  meaning _ := rfl
  structs id := by
    have hs : (p.struct id).fields = [] ∧ ∀ f ∈ (p.struct id).decl.fields, f.Within P :=
      forall_getD hp.structs ⟨rfl, by simp [default]⟩ id
    refine ⟨rfl, rfl, by simp [hs.1], hs.2, fun m hm => ?_⟩
    rw [Package.struct, Array.getD_eq_getD_getElem?] at hm
    cases he : p.structs[id]? with
    | none =>
      rw [he] at hm
      cases hm
    | some s =>
      rw [he] at hm
      obtain ⟨f, hf, ho, -⟩ := (hp.methods id s he m.1 m.2).mp hm
      simp [ofPackage, Package.outline, Package.func, Array.getD_eq_getD_getElem?, hf, ho]
  traits id := by
    have ht : (p.trait id).methods = [] ∧ ∀ m ∈ (p.trait id).decl.methods, m.Within P :=
      forall_getD hp.traits ⟨rfl, by simp [default]⟩ id
    exact ⟨rfl, ht.1 ▸ covered_nil, ht.2⟩
  enums id := by
    have he : (p.enum id).base = .base .u32 :=
      forall_getD (fun e he => (hp.enums e he).1) rfl id
    exact ⟨rfl, he ▸ covers_base _⟩
  funcs id := by
    have hf : (p.func id).sig.params = [] ∧ (p.func id).sig.ret = .void :=
      forall_getD (fun f hf => (hp.funcs f hf).1) ⟨rfl, rfl⟩ id
    exact ⟨rfl, covers_function.mpr ⟨by simp [hf.1], hf.2 ▸ covers_void⟩, rfl⟩
  aliases id := by
    have ha : (p.typeAlias id).type = none :=
      forall_getD (fun a ha => (hp.aliases a ha).1) rfl id
    exact ⟨rfl, by simp [ha]⟩
  globals id := by
    have hg : (p.global id).value = none :=
      forall_getD (fun g hg => (hp.globals g hg).1) rfl id
    exact ⟨rfl, hg ▸ covered_none⟩

end Declared

variable {setup : Package.Setup} {files : Nat} {c : Package.Collected} {p : Package}
  {out : Package.Instances}

/-- The demand for all that was asked for. -/
def ofStages (S : Report.Stages setup files c p out) : Demand :=
  ofPackage (·.file < files) c.package S.requests

/-- A demand that covers all types of a check. -/
structure CoveredStages (D : Demand) (S : Report.Stages setup files c p out) : Prop where
  declared : D.CoveredPackage c.package
  aliased : D.CoveredPackage S.aliased
  enumerated : D.CoveredPackage S.enumerated
  typed : D.CoveredPackage S.typed
  final : D.CoveredPackage p
  grants : D.Grants S.found
  instances : D.CoveredInstances out
  events : ∀ e ∈ S.events, D.Sound e.request

open Package.Instances in
/-- A whole check keeps all covered by what it asks for, at the places of the
declarations. -/
theorem covered_requests {P : Span → Prop} {F : Nat → Prop} (hc : c.Sound P F)
    (S : Report.Stages setup files c p out) :
    (ofPackage P c.package S.requests).CoveredStages S := by
  let D := ofPackage P c.package S.requests
  have hgrants : D.Grants S.found := fun r hr => List.mem_append_left _ hr
  have hevents : ∀ e ∈ S.events, ∀ r ∈ e.requests, D.request r := fun e he r hr =>
    List.mem_append_right _ (List.mem_flatMap.mpr ⟨e, he, hr⟩)
  have hphases := hgrants
  simp only [← S.found_eq, grants_append] at hphases
  obtain ⟨⟨⟨⟨⟨⟨⟨-, hg1⟩, hg2⟩, hg3⟩, hg4⟩, -⟩, -⟩, hg5⟩ := hphases
  have hp : D.CoveredPackage c.package := covered_declared hc.table
  obtain ⟨hp1, hf1⟩ := covered_resolveAliases hp S.resolveAliases hg1
  obtain ⟨hp2, hf2⟩ := covered_resolveEnums hp1 S.resolveEnums hg2
  obtain ⟨hp3, hf3⟩ := covered_resolveTypes hp2 S.resolveTypes hg3
  obtain ⟨hp4, hf4⟩ := covered_computeGlobals hp3 S.computeGlobals hg4
  have hf5 := covered_checkBodies hp4 S.checkBodies hg5
  have hfound : D.CoveredFindings S.found := by
    have hcollected : D.CoveredFindings (.ofDiags c.diags.toList) :=
      coveredFindings_ofDiags fun d hd => hc.reports d (Array.mem_toList_iff.mp hd)
    have htraits := coveredFindings_ofDiags (places_traitProblems hp4.within)
    have hcycles := coveredFindings_ofDiags (places_orderStructs hp4.within)
    rw [← S.found_eq]
    repeat' apply coveredFindings_append
    all_goals assumption
  have hqueue : ∀ e ∈ atDepth 0 S.found.requests.toList, D.request e.1 ∧ D.Sound e.1 := by
    intro e he
    obtain ⟨r, hr, rfl⟩ := List.mem_map.mp he
    exact ⟨hgrants r hr, hfound.requests r hr⟩
  obtain ⟨hout, hsound⟩ := covered_drains hp4 S.drains hqueue hevents
    ⟨hfound.diags, hfound.typings, by simp [settled]⟩
  exact ⟨hp, hp1, hp2, hp3, hp4, hgrants, hout, hsound⟩

theorem covered_stages (hc : c.Sound (·.file < files) (· < files))
    (S : Report.Stages setup files c p out) : (ofStages S).CoveredStages S :=
  covered_requests hc S

end Demand

end JaneCheck
