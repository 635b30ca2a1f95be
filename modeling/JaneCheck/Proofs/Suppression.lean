import JaneCheck.Proofs.Silence
import JaneCheck.Proofs.VoidVars

/-!
# What errors are suppressed for

A check skips what it would say about a value that failed. `Stages.Ends` are the
states in which the parts of a check end: the phases, the files and the
instances. `suppressed_stages` says of each of them that a void read was one of
a failure that is reported, or of something that is void for a reason that
`Stages.Excuse` names.
-/

namespace JaneCheck

open Check

/-! ## Globals on the way -/

namespace Package

/-- The tables agree on names and on the declared globals. -/
structure SameGlobals (p q : Package) : Prop where
  names : q.names = p.names
  globals : q.globals = p.globals

variable {setup : Setup} {p q : Package} {found : Findings} {s : State}

theorem SameGlobals.trans {r : Package} (h : SameGlobals p q) (h' : SameGlobals q r) :
    SameGlobals p r :=
  ⟨h'.names.trans h.names, h'.globals.trans h.globals⟩

theorem sameGlobals_resolveAliases (h : p.resolveAliases setup = some (q, found)) :
    SameGlobals p q := by
  obtain ⟨⟨types, f⟩, -, he⟩ := Option.bind_eq_some_iff.mp h
  cases he
  exact ⟨rfl, rfl⟩

theorem sameGlobals_resolveEnums (h : p.resolveEnums setup = some (q, found)) :
    SameGlobals p q := by
  obtain ⟨⟨items, f⟩, -, he⟩ := Option.bind_eq_some_iff.mp h
  cases he
  exact ⟨rfl, rfl⟩

theorem sameGlobals_resolveTypes {files : Nat} (h : p.resolveTypes setup files = some (q, found)) :
    SameGlobals p q := by
  obtain ⟨rs, -, he⟩ := Option.bind_eq_some_iff.mp h
  cases he
  exact List.foldlRecOn (motive := SameGlobals p) rs _ ⟨rfl, rfl⟩
    fun q hq r _ => hq.trans ⟨rfl, rfl⟩

/-- What the globals were computed to be. -/
theorem exists_values (h : p.computeGlobals setup = some (q, found)) :
    ∃ values s, (forEachCheck globalValue (List.range p.globals.size)
        (envAt p setup.options setup.depth { reportGlobals := true })).run {} = some (values, s) ∧
      found = .ofState s ∧ values.length = p.globals.size ∧ q.names = p.names ∧
      q.globals.size = p.globals.size ∧ ∀ id, (q.global id).value = values[id]? := by
  obtain ⟨⟨values, f⟩, hfind, he⟩ := Option.bind_eq_some_iff.mp h
  cases he
  obtain ⟨s, hrun, rfl⟩ := run_of_find hfind
  have hlength : values.length = p.globals.size := by
    rw [length_forEachCheck hrun, List.length_range]
  refine ⟨values, s, hrun, rfl, hlength, rfl, by simp [hlength], fun id => ?_⟩
  by_cases hid : id < p.globals.size
  · simp [global, hid, hlength]
  · replace hid := Nat.le_of_not_lt hid
    have hnone : values[id]? = none := List.getElem?_eq_none (hlength ▸ hid)
    rw [hnone]
    simp [global, hid, hlength]
    rfl

/-- A check of the package, from the fresh state, ends in `s`. -/
def EndsIn (setup : Setup) (p : Package) (context : Context) (x : Check α) (s : State) : Prop :=
  ∃ a, Check.run p setup.options setup.depth context x {} = some (a, s)

theorem EndsIn.find {context : Context} {x : Check α} (h : p.EndsIn setup context x s) :
    ∃ a, p.find setup context x = some (a, .ofState s) := by
  obtain ⟨a, h⟩ := h
  exact ⟨a, find_of_run h⟩

/-- What is made of the outcome of the check is made of what `s` found. -/
theorem EndsIn.exists_of_bind {context : Context} {x : Check α} {f : α × Findings → Option β} {b : β}
    (h : p.EndsIn setup context x s) (hb : (p.find setup context x).bind f = some b) :
    ∃ a, f (a, .ofState s) = some b := by
  obtain ⟨a, hfind⟩ := h.find
  rw [hfind] at hb
  exact ⟨a, hb⟩

theorem EndsIn.trace {context : Context} {x : Check α} {R : α → Prop} (h : p.EndsIn setup context x s)
    (hx : (tracing p setup.options).Obeys x R) : Trace p setup.options context.reportGlobals {} s := by
  obtain ⟨a, h⟩ := h
  exact (hx _ _ _ trivial h trivial).1.trace not_false

end Package

/-! ## The parts of a check -/

namespace Package.Instances

theorem Drains.checked {p : Package} {check : Template → List Ty → Option Checked} {limit : Nat}
    {queue : Queue} {i out : Instances} {events : List Event}
    (h : Drains p check limit queue i events out) {r : Request} {c : Checked}
    (he : .check r c ∈ events) : check r.template r.types = some c := by
  induction h with
  | done => cases he
  | known _ _ ih => exact ih he
  | refuse _ _ _ ih =>
    rcases List.mem_cons.mp he with he | he
    · cases he
    · exact ih he
  | check _ _ hcheck _ ih =>
    rcases List.mem_cons.mp he with he | he
    · cases he
      exact hcheck
    · exact ih he

end Package.Instances

namespace Report

open Package

variable {setup : Setup} {files : Nat} {c : Collected} {p : Package} {out : Instances}

namespace Stages

/-- The phase of the globals ends in `s`. -/
def EndsGlobals (S : Stages setup files c p out) (s : State) : Prop :=
  S.typed.EndsIn setup { reportGlobals := true }
    (forEachCheck globalValue (List.range S.typed.globals.size)) s

/-- The states in which the phases and the checks of files and instances end. -/
inductive Ends (S : Stages setup files c p out) (s : State) : Prop
  | aliases (h : c.package.EndsIn setup {}
      (forEachCheck aliasType (List.range c.package.aliases.size)) s)
  | enums (h : S.aliased.EndsIn setup {}
      (forEachCheck enumItems (S.aliased.enums.toList.map (·.decl))) s)
  | types {file} (hfile : file < files)
      (h : S.enumerated.EndsIn setup {} (S.enumerated.fileTypes file) s)
  | globals (h : S.EndsGlobals s)
  | file {file} (hfile : file < files) (h : p.EndsIn setup {} (p.checkFile file) s)
  | func {r checked id} (he : .check r checked ∈ S.events) (ht : r.template = .func id)
      (h : p.EndsIn setup {} (checkFuncInstance id r.types) s)
  | struct {r checked id} (he : .check r checked ∈ S.events) (ht : r.template = .struct id)
      (h : p.EndsIn setup {} (checkStructInstance id r.types) s)

variable (S : Stages setup files c p out) {s : State} {d : Diagnostic}

theorem diags_checked {r : Request} {checked : Checked} (he : .check r checked ∈ S.events)
    (h : d ∈ checked.findings.diags.toList) : d ∈ out.findings.diags.toList := by
  rw [S.drains.diags]
  exact List.mem_append_right _ (List.mem_flatMap.mpr ⟨_, he, h⟩)

/-- What a part reports is reported in the end. -/
theorem Ends.diags {S : Stages setup files c p out} (h : S.Ends s) (hd : d ∈ s.diags.toList) :
    d ∈ out.findings.diags.toList := by
  cases h with
  | aliases h =>
    obtain ⟨a, he⟩ := h.exists_of_bind S.resolveAliases
    obtain ⟨-, hfound⟩ := Prod.mk.inj (Option.some.inj he)
    exact S.diags_phase (f := S.aliases) (by simp) (hfound ▸ hd)
  | enums h =>
    obtain ⟨a, he⟩ := h.exists_of_bind S.resolveEnums
    obtain ⟨-, hfound⟩ := Prod.mk.inj (Option.some.inj he)
    exact S.diags_phase (f := S.enums) (by simp) (hfound ▸ hd)
  | globals h =>
    obtain ⟨a, he⟩ := h.exists_of_bind S.computeGlobals
    obtain ⟨-, hfound⟩ := Prod.mk.inj (Option.some.inj he)
    exact S.diags_phase (f := S.globals) (by simp) (hfound ▸ hd)
  | types hfile h =>
    obtain ⟨a, hfind⟩ := h.find
    obtain ⟨rs, hrs, he⟩ := Option.bind_eq_some_iff.mp S.resolveTypes
    obtain ⟨-, hfound⟩ := Prod.mk.inj (Option.some.inj he)
    obtain ⟨r, hr, hfind'⟩ := exists_result_of_mapM hrs (List.mem_range.mpr hfile)
    cases hfind.symm.trans hfind'
    exact S.diags_phase (f := S.types) (by simp) (hfound ▸ (mem_foldl_findings hr {}).1 d hd)
  | file hfile h =>
    obtain ⟨a, hfind⟩ := h.find
    obtain ⟨rs, hrs, he⟩ := Option.bind_eq_some_iff.mp S.checkBodies
    obtain ⟨r, hr, hfind'⟩ := exists_result_of_mapM hrs (List.mem_range.mpr hfile)
    cases hfind.symm.trans hfind'
    exact S.diags_phase (f := S.bodies) (by simp) (Option.some.inj he ▸ (mem_foldl_findings hr {}).1 d hd)
  | func he ht h =>
    have hcheck := S.drains.checked he
    rw [ht] at hcheck
    obtain ⟨a, rfl⟩ := (h.exists_of_bind hcheck).imp fun _ => Option.some.inj
    exact S.diags_checked he hd
  | struct he ht h =>
    have hcheck := S.drains.checked he
    rw [ht] at hcheck
    obtain ⟨a, rfl⟩ := (h.exists_of_bind hcheck).imp fun _ => Option.some.inj
    exact S.diags_checked he hd

/-! ### Globals -/

theorem sameGlobals_aliased : SameGlobals c.package S.aliased :=
  sameGlobals_resolveAliases S.resolveAliases

theorem sameGlobals_enumerated : SameGlobals c.package S.enumerated :=
  S.sameGlobals_aliased.trans (sameGlobals_resolveEnums S.resolveEnums)

theorem sameGlobals_typed : SameGlobals c.package S.typed :=
  S.sameGlobals_enumerated.trans (sameGlobals_resolveTypes S.resolveTypes)

section Globals

variable {q : Package} (hc : c.package.Declared (·.file < files) (· < files))

include hc

theorem lt_size_of_hasGlobal (hnames : q.names = c.package.names)
    (hsize : q.globals.size = c.package.globals.size) {id : GlobalId} (h : q.HasGlobal id) :
    id < c.package.globals.size := by
  rcases h with h | ⟨name, h⟩
  · exact hsize ▸ h
  · exact hc.lt_globals (by rwa [Package.lookup?, hnames] at h)

end Globals

section Accounts

include S

/-- In the end every global of the table has a value. -/
theorem exists_value {id : GlobalId} (hid : id < c.package.globals.size) :
    ∃ w, (p.global id).value = some w := by
  obtain ⟨values, s, -, -, hlength, -, -, hvalue⟩ := exists_values S.computeGlobals
  rw [S.sameGlobals_typed.globals] at hlength
  have hget := List.getElem?_eq_getElem (hlength ▸ hid)
  exact ⟨_, (hvalue id).trans hget⟩

variable (hc : c.package.Declared (·.file < files) (· < files))

include hc

theorem valued : p.Valued := by
  intro id hid
  obtain ⟨values, s, -, -, -, hnames, hsize, -⟩ := exists_values S.computeGlobals
  rw [S.sameGlobals_typed.names] at hnames
  rw [S.sameGlobals_typed.globals] at hsize
  obtain ⟨w, hw⟩ := S.exists_value (lt_size_of_hasGlobal hc hnames hsize hid)
  simp [hw]

/-- In the end every alias was tried and every global has its value. -/
theorem resolved : p.Resolved where
  aliases id hid := by
    have hsame :=
      (sameAliases_resolveTypes S.resolveTypes).trans (same_computeGlobals S.computeGlobals).2
    obtain ⟨hnone, htried, -⟩ := tried_enumerated S hc
    rcases hid with hid | ⟨name, hname⟩
    · have hentry : p.typeAlias id = S.enumerated.typeAlias id := by
        simp [Package.typeAlias, hsame.aliases]
      rw [hentry, hsame.broken]
      refine Classical.byContradiction fun h =>
        hnone id ⟨hsame.aliases ▸ hid, ?_, fun hb => h (.inr hb)⟩
      exact Option.eq_none_iff_forall_ne_some.mpr fun t ht => h (.inl ⟨t, ht⟩)
    · exact hsame.tried htried hname
  globals := S.valued hc

end Accounts

end Stages

/-- No value is given, so that what would be checked of it is skipped. -/
def Skips (s s' : State) : Prop :=
  ∃ env e hint, (evalChecked e hint env).run s = some (none, s') ∨
    (declaredValue e hint env).run s = some (none, s')

/-- In a part that ends in `s` a void value was read, or a check was skipped where
diagnostics are kept. -/
def Suppresses (s : State) : Prop := 0 < s.voidReads ∨ ∃ s1 s2, Skips s1 s2 ∧ s2.Le s

theorem Suppresses.voidReads {s : State} (h : Suppresses s) (hclean : s.NoErrors) :
    0 < s.voidReads := by
  rcases h with h | ⟨s1, s2, ⟨env, e, hint, hnone⟩, hle⟩
  · exact h
  · have hfailed := hnone.elim failedBetween_evalChecked failedBetween_declaredValue
    exact Nat.lt_of_lt_of_le (hfailed.voidReads (Guard.noErrors.of_le hle hclean)) hle.voidReads

end Report

end JaneCheck
