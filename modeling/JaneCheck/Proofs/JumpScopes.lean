import JaneCheck.Check.Definition
import JaneCheck.Proofs.Charts
import Mathlib.Data.List.Nodup

/-!
# Jumps and the scopes of variables

A variable is in scope behind its declaration in the block of it and in the blocks
further in; that of a loop is in scope in the body of the loop. A jump to a label
that the check of a body lets pass enters the scope of no declared variable
(`goto_in_scope`): its declaration is recorded at its place in the block that stands for
the one it is written in, so a path to the label leads past it and the path to the
jump does as well. Loops record nothing, so a jump into a loop passes.
-/

namespace JaneCheck

namespace Syntax

/-- The variables of a loop over something enumerable. -/
def Stmt.loopNames : Stmt → List String
  | .loop (.forEach vars _) _ _ => (vars.take 2).map (·.name)
  | _ => []

/-- The variable `v` of the statement at `decl` is in scope at `spot`. -/
inductive InScope (body : List Stmt) (spot decl : Spot) (v : String) : Prop
  | declared {stmt : Stmt} {i : Nat} (hstmt : stmtAt? body decl = some stmt)
      (hv : v ∈ stmt.declared) (haround : ⟨decl.trail, i⟩ ∈ around spot.trail spot.index)
      (hlt : decl.index < i)
  | loop {stmt : Stmt} {i : Nat} (hstmt : stmtAt? body decl = some stmt)
      (hv : v ∈ stmt.loopNames)
      (haround : ⟨⟨decl.index, 0⟩ :: decl.trail, i⟩ ∈ around spot.trail spot.index)

/-- A statement around another one has blocks. -/
theorem inner_of_mem_around {body : List Stmt} {spot outer : Spot} {stmt : Stmt}
    (hspot : stmtAt? body spot = some stmt) (h : outer ∈ around spot.trail spot.index) :
    outer = spot ∨ ∃ stmt', stmtAt? body outer = some stmt' ∧ stmt'.inner ≠ [] := by
  obtain ⟨t, i⟩ := spot
  dsimp only at h
  induction t generalizing i stmt with
  | nil => exact .inl (List.mem_singleton.mp h)
  | cons turn t ih =>
    rcases List.mem_cons.mp h with rfl | h
    · exact .inl rfl
    right
    obtain ⟨stmts, hstmts, -⟩ := Option.bind_eq_some_iff.mp hspot
    obtain ⟨stmt', hstmt', hinner⟩ := blockAt?_cons.mp hstmts
    rcases ih _ hstmt' h with rfl | hfurther
    · refine ⟨stmt', hstmt', ?_⟩
      rintro hnil
      rw [hnil] at hinner
      cases hinner
    · exact hfurther

theorem Stmt.inner_of_declared {stmt : Stmt} {v : String} (h : v ∈ stmt.declared) :
    stmt.inner = [] := by
  cases stmt with
  | declare | declareMany => rfl
  | _ => cases h

end Syntax

namespace Check

open Syntax

/-! ## A body that is done -/

namespace Drawing

/-- All blocks of the chart are done. -/
structure Complete (d : Drawing) (ρ : Chart) (s : State) : Prop extends d.Drawn ρ s where
  done : ∀ ⦃b t⦄, ρ b = some t → ∀ ⦃i stmt⦄, stmtAt? d.body ⟨t, i⟩ = some stmt →
    Done d.start t b i stmt ρ s

namespace Complete

variable {d : Drawing} {ρ : Chart} {s : State}

theorem exists_block (h : d.Complete ρ s) {t : Trail} {stmts : List Stmt}
    (ht : blockAt? d.body t = some stmts) : ∃ b, ρ b = some t := by
  induction t generalizing stmts with
  | nil => exact ⟨d.root, h.fits.top⟩
  | cons turn t ih =>
    obtain ⟨stmt, hstmt, hinner⟩ := blockAt?_cons.mp ht
    obtain ⟨outer, houter, -⟩ := Option.bind_eq_some_iff.mp hstmt
    obtain ⟨b, hb⟩ := ih houter
    exact (h.done hb hstmt).inner turn.block (List.getElem?_eq_some_iff.mp hinner).1

theorem exists_done (h : d.Complete ρ s) {spot : Spot} {stmt : Stmt}
    (hstmt : stmtAt? d.body spot = some stmt) :
    ∃ b, ρ b = some spot.trail ∧ Done d.start spot.trail b spot.index stmt ρ s := by
  obtain ⟨stmts, hstmts, -⟩ := Option.bind_eq_some_iff.mp hstmt
  obtain ⟨b, hb⟩ := h.exists_block hstmts
  exact ⟨b, hb, h.done hb hstmt⟩

theorem exists_common (h : d.Complete ρ s) {b : BlockId} {t : Trail} (hb : ρ b = some t) (i : Nat) :
    ∃ q ∈ s.scopes.path b i, q.block = d.root := by
  have hroot : ∃ j, ⟨[], j⟩ ∈ around t i := by
    clear hb
    induction t generalizing i with
    | nil => exact ⟨i, by simp [around]⟩
    | cons turn t ih =>
      obtain ⟨j, hj⟩ := ih turn.stmt
      exact ⟨j, List.mem_cons_of_mem _ hj⟩
  obtain ⟨j, hj⟩ := hroot
  obtain ⟨q, hq, -, hblock⟩ := h.fits.exists_mem_path hb hj
  exact ⟨q, hq, h.fits.only hblock⟩

/-- A jump that skips no declaration enters the scope of no declared variable. -/
theorem in_scope (h : d.Complete ρ s) {g l decl : Spot} {b b' : BlockId} {v : String}
    {label : Ident} {span : Span} (hgoto : stmtAt? d.body g = some (.goto label span))
    (hg : ρ b = some g.trail) (hl : ρ b' = some l.trail)
    (hjump : s.scopes.jumpsDeclarations ⟨b, g.index⟩ ⟨b', l.index⟩ = false)
    (hv : InScope d.body l decl v) :
    InScope d.body g decl v ∨ ∃ stmt, stmtAt? d.body decl = some stmt ∧ v ∈ stmt.loopNames := by
  cases hv with
  | loop hstmt hv => exact .inr ⟨_, hstmt, hv⟩
  | @declared stmt i hstmt hv haround hlt =>
    left
    -- the declaration stands in a block around the label, before it
    obtain ⟨q, hq, hindex, hblock⟩ := h.fits.exists_mem_path hl haround
    obtain ⟨block, hfound, hdecl⟩ := (h.done hblock hstmt).declares (List.ne_nil_of_mem hv)
    -- so the block is around the jump too
    obtain ⟨x, hx, hxroot⟩ := h.exists_common hg g.index
    obtain ⟨y, hy, hyroot⟩ := h.exists_common hl l.index
    rw [Scopes.jumpsDeclarations_path hx hy (hxroot.trans hyroot.symm)] at hjump
    obtain ⟨q', hq', hsame, hle⟩ := hjump q hq block hfound decl.index hdecl (hindex ▸ hlt)
    have haround' : ⟨decl.trail, q'.index⟩ ∈ around g.trail g.index :=
      h.fits.mem_around hg hq' (hsame ▸ hblock)
    refine .declared hstmt hv haround' (Nat.lt_of_le_of_ne hle fun heq => ?_)
    -- the jump is not the declaration and not inside it
    rw [← heq] at haround'
    rcases inner_of_mem_around hgoto haround' with hself | ⟨stmt', hstmt', hinner⟩
    · cases hstmt.symm.trans (hself ▸ hgoto)
      cases hv
    · cases hstmt.symm.trans hstmt'
      exact hinner (Stmt.inner_of_declared hv)

end Complete

/-- The chart of the body alone, when its block was opened. -/
theorem drawn_start {d : Drawing} {s : State} (hroot : d.root < s.scopes.blocks.size)
    (hmarks : s.marks = []) (hle : d.start.Le s) :
    d.Drawn (Chart.add (fun _ => none) d.root []) s := by
  have honly {b : BlockId} {t : Trail} (hb : Chart.add (fun _ => none) d.root [] b = some t) :
      b = d.root ∧ t = [] := by
    by_cases heq : b = d.root
    · subst heq
      exact ⟨rfl, Option.some.inj (hb.symm.trans Chart.add_self)⟩
    · rw [Chart.add_of_ne heq] at hb
      cases hb
  refine ⟨⟨fun hb => ?_, Chart.add_self, fun hb => (honly hb).1, fun hb => ?_⟩, ?_, ?_, hle⟩
  · rw [(honly hb).1]
    exact ⟨Nat.le_refl _, hroot⟩
  · cases (honly hb).2
  · rw [hmarks]
    exact nofun
  · rw [hmarks]
    exact .nil

/-- The check of the statements of a body makes a complete chart of it. -/
theorem complete_checkStmts {d : Drawing} {p : Package} {o : Options} {n : Nat} {c : Context}
    {s s' : State} (h : run p o n c (checkStmts d.body) s = some ((), s'))
    (hc : c.block = some d.root) (hroot : d.root < s.scopes.blocks.size) (hmarks : s.marks = [])
    (hle : d.start.Le s) : ∃ ρ, d.Complete ρ s' := by
  have hdrawn := drawn_start hroot hmarks hle
  obtain ⟨ρ, hnext, hdone⟩ := draws_checkFrom (n := n) d.body d.body 0 none hc rfl rfl _ s hdrawn
    Chart.add_self h trivial
  refine ⟨ρ, hnext.drawn, fun b t hb i stmt hstmt => ?_⟩
  by_cases heq : b = d.root
  · subst heq
    cases (hnext.chart Chart.add_self).symm.trans hb
    exact hdone i stmt (Nat.zero_le i) hstmt
  · exact hnext.done hb (Chart.add_of_ne heq) hstmt

end Drawing

/-! ## Gotos -/

section Gotos

variable {env : Env} {s s' : State}

/-- A goto is checked against the label of its name. -/
theorem leads_resolveGoto (g : Goto) : Leads .any env s (resolveGoto g) fun _ s' =>
    s'.scopes = s.scopes ∧ s'.marks = s.marks ∧
    (s.marks.find? (·.1 == g.label) = none → ⟨.unknownLabel g.label, g.span⟩ ∈ s.added s') ∧
    ∀ mark, s.marks.find? (·.1 == g.label) = some mark →
      s.scopes.jumpsDeclarations g.place mark.2 = true →
        ⟨.gotoSkipsDeclaration g.label, g.span⟩ ∈ s.added s' := by
  have hfind : s.marks.find? (·.1 == g.label) =
      (s.labels.find? (·.name == g.label)).map fun l => (l.name, l.place) := by
    rw [State.marks, List.find?_map]
    rfl
  refine .bind (M := fun a s1 => a = s.labels.find? (·.name == g.label) ∧ s = s1)
    (.state (.pure ⟨rfl, rfl⟩)) ?_
  rintro _ _ - ⟨rfl, rfl⟩
  rw [hfind]
  cases s.labels.find? (·.name == g.label) with
  | none =>
    intro _ s' hrun _
    have hadded := mem_added_report hrun
    cases hrun
    exact ⟨rfl, rfl, fun _ => hadded, fun _ h => by cases h⟩
  | some label =>
    refine .bind (M := fun _ s1 => s1.scopes = s.scopes ∧ s1.marks = s.marks ∧ s1.diags = s.diags)
      (leads_update ⟨rfl, s.marks_useLabel g.label, rfl⟩) fun _ s1 _ hsame => .state ?_
    obtain ⟨hscopes, hmarks, hdiags⟩ := hsame
    split
    next =>
      intro _ s' hrun _
      have hadded := mem_added_report hrun
      rw [State.added, hdiags, ← State.added] at hadded
      cases hrun
      exact ⟨hscopes, hmarks, (fun h => by cases h), fun _ _ _ => hadded⟩
    next hno =>
      refine .pure ⟨hscopes, hmarks, (fun h => by cases h), fun mark hmark hjump => ?_⟩
      cases hmark
      exact absurd (hscopes ▸ hjump) hno

/-- After the check of the gotos each one is reported or leads to a label, past no
declaration. -/
theorem gotos_checked (h : (checkGotos env).run s = some ((), s')) {g : Goto} (hg : g ∈ s.gotos)
    (hunknown : ⟨.unknownLabel g.label, g.span⟩ ∉ s.added s')
    (hskips : ⟨.gotoSkipsDeclaration g.label, g.span⟩ ∉ s.added s') :
    ∃ mark, s.marks.find? (·.1 == g.label) = some mark ∧
      s.scopes.jumpsDeclarations g.place mark.2 = false := by
  obtain ⟨_, _, hstate, h⟩ := run_bind.mp h
  cases hstate
  obtain ⟨⟨⟩, s1, hloop, hrest⟩ := run_bind.mp h
  have hkeeps : ∀ g ∈ s.gotos, ∀ s1 s2 : State,
      (s.Le s1 ∧ s1.scopes = s.scopes ∧ s1.marks = s.marks) →
      (resolveGoto g env).run s1 = some ((), s2) →
      s.Le s2 ∧ s2.scopes = s.scopes ∧ s2.marks = s.marks := by
    rintro g - s1 s2 ⟨hle, hscopes, hmarks⟩ hrun
    obtain ⟨hscopes', hmarks', -⟩ := leads_resolveGoto g hrun trivial
    exact ⟨hle.trans (Step.le _ hrun), hscopes'.trans hscopes, hmarks'.trans hmarks⟩
  obtain ⟨s2, s3, ⟨hle, hscopes, hmarks⟩, hrun, hle'⟩ :=
    run_of_mem_forM hkeeps hg ⟨.refl s, rfl, rfl⟩ hloop
  have hreported {q : Diagnostic} (hq : q ∈ s2.added s3) : q ∈ s.added s' :=
    State.mem_added_left (hle'.trans (Step.le _ hrest))
      (State.mem_added_right hle (Step.le _ hrun) hq)
  obtain ⟨-, -, hnone, hsome⟩ := leads_resolveGoto g hrun trivial
  rw [hmarks] at hnone hsome
  cases hfind : s.marks.find? (·.1 == g.label) with
  | none => exact absurd (hreported (hnone hfind)) hunknown
  | some mark =>
    refine ⟨mark, rfl, Bool.eq_false_iff.mpr fun hjump => hskips (hreported ?_)⟩
    exact hsome mark hfind (hscopes ▸ hjump)

end Gotos

/-! ## Bodies -/

section Bodies

variable {p : Package} {o : Options} {n : Nat} {c : Context} {s s' : State} {id : FuncId}
  {ownerTypes types : List Ty}

/-- A body in the course of its check: its statements are checked in a block of their own,
from a state without labels, and after them its gotos. -/
structure Course (p : Package) (o : Options) (n : Nat) (body : List Stmt) (s s' : State) where
  context : Context
  root : BlockId
  entered : State
  done : State
  left : State
  block : context.block = some root
  opened : root < entered.scopes.blocks.size
  marks : entered.marks = []
  stmts : run p o n context (checkStmts body) entered = some ((), done)
  gotos : run p o n context checkGotos done = some ((), left)
  before : s.Le entered
  after : left.Le s'

theorem Course.mono {body : List Stmt} {s1 s2 : State} (h : Nonempty (Course p o n body s s1))
    (hle : s1.Le s2) : Nonempty (Course p o n body s s2) :=
  h.map fun course => { course with after := course.after.trans hle }

/-- What is checked in the block of the body. -/
theorem leads_course {body : List Stmt} {s0 : State} {root : BlockId} {x y z : Check Unit}
    (hblock : c.block = some root) (hopened : root < s.scopes.blocks.size) (hmarks : s.marks = [])
    (hle : s0.Le s) (hx : (staying p o).Keeps x) (hy : (staying p o).Keeps y)
    (hz : (staying p o).Keeps z) :
    Leads .any (envAt p o n c) s (do x; y; z; checkStmts body; checkGotos) fun _ s' =>
      Nonempty (Course p o n body s0 s') := by
  refine .after fun _ s1 hrunx => .after fun _ s2 hruny => .after fun _ s3 hrunz => ?_
  refine .after fun _ s4 hstmts => ?_
  intro _ s5 hgotos _
  have hxyz : (staying p o).Keeps (do x; y; z) := .then hx fun _ => .then hy fun _ => hz
  obtain ⟨hstays, -⟩ := hxyz n c s trivial
    (run_bind.mpr ⟨(), s1, hrunx, run_bind.mpr ⟨(), s2, hruny, hrunz⟩⟩) trivial
  have hle3 := ((hle.trans (Step.le _ hrunx)).trans (Step.le _ hruny)).trans (Step.le _ hrunz)
  exact ⟨{
    context := c
    root := root
    entered := s3
    done := s4
    left := s5
    block := hblock
    opened := Nat.lt_of_lt_of_le hopened hstays.grows.size_le
    marks := (hstays.marks not_false).1.trans hmarks
    stmts := hstmts
    gotos := hgotos
    before := hle3
    after := .refl s5 }⟩

theorem course_checkBody (h : run p o n c (checkBody id ownerTypes types) s = some ((), s')) :
    Nonempty (Course p o n (p.func id).decl.body.stmts s s') := by
  suffices hleads : Leads .any (envAt p o n c) s (checkBody id ownerTypes types) fun _ s' =>
    Nonempty (Course p o n (p.func id).decl.body.stmts s s') from hleads h trivial
  have hdecl : (p.func id).decl.Within (staying p o).span := Syntax.Function.within_of_forall (fun _ => trivial) _
  have hcovers : ∀ t ∈ ownerTypes, (staying p o).Covers t := fun _ _ => Demand.covers_lax _
  refine .package (.inContext (.after fun sig s1 hsig => ?_))
  refine .bind (M := fun _ s' => Nonempty (Course p o n (p.func id).decl.body.stmts s s')) ?_
    fun _ s5 _ hcourse => ?_
  · refine .after fun _ s2 hfresh => .inContext (.context (.state (.after fun _ s3 henter => ?_)))
    have hle := ((Step.le _ hsig).trans (Step.le _ hfresh)).trans (Step.le _ henter)
    cases hfresh
    cases henter
    refine .bind (.inContext (leads_course rfl (by simp) rfl hle
      (keeps_declareReceiver trivial hdecl hcovers fun _ _ => nofun)
      (keeps_declareParams trivial hdecl.params fun _ _ => Demand.covers_lax _)
      (keeps_declareResults trivial hdecl (Demand.covers_lax _)))) fun _ s4 _ hcourse => ?_
    exact .after fun _ s5 hunused => .pure (Course.mono hcourse (Step.le _ hunused))
  · intro _ s6 hreturns _
    exact Course.mono hcourse (Step.le _ hreturns)

namespace Course

variable {body : List Stmt} (course : Course p o n body s s')

/-- The statements of the body are drawn from the state before it. -/
def drawing : Drawing := ⟨body, course.root, s⟩

theorem done_le : s.Le course.done :=
  course.before.trans ((checkStmts body (envAt p o n course.context)).le course.stmts)

theorem le_left : course.done.Le course.left :=
  (checkGotos (envAt p o n course.context)).le course.gotos

theorem exists_complete : ∃ ρ, course.drawing.Complete ρ course.done :=
  Drawing.complete_checkStmts course.stmts course.block course.opened course.marks course.before

/-- The label of a goto, to which it jumps past no declaration. -/
theorem exists_label {ρ : Chart} {g : Goto} (hcomplete : course.drawing.Complete ρ course.done)
    (hg : g ∈ course.done.gotos) (hskips : ⟨.gotoSkipsDeclaration g.label, g.span⟩ ∉ s.added s')
    (hunknown : ⟨.unknownLabel g.label, g.span⟩ ∉ s.added s') :
    ∃ l b name span, stmtAt? body l = some (.label name span) ∧ name.name = g.label ∧
      ρ b = some l.trail ∧ (g.label, ⟨b, l.index⟩) ∈ course.done.marks ∧
      course.done.scopes.jumpsDeclarations g.place ⟨b, l.index⟩ = false := by
  have hreported {q : Diagnostic} (hq : q ∈ course.done.added course.left) : q ∈ s.added s' :=
    State.mem_added_left course.after (State.mem_added_right course.done_le course.le_left hq)
  obtain ⟨mark, hfind, hjump⟩ := gotos_checked course.gotos hg
    (fun hq => hunknown (hreported hq)) fun hq => hskips (hreported hq)
  have hmem := List.mem_of_find?_eq_some hfind
  have hmark : mark.1 = g.label := by simpa using List.find?_some hfind
  obtain ⟨t, name, span, hblock, hl, hname⟩ := hcomplete.labels mark hmem
  exact ⟨⟨t, mark.2.index⟩, mark.2.block, name, span, hl, hname.trans hmark, hblock,
    hmark ▸ hmem, hjump⟩

/-- A label that is not refused is the one of its name. -/
theorem label_unique {ρ : Chart} {l l' : Spot} {b : BlockId} {name : Ident} {span : Span}
    (hcomplete : course.drawing.Complete ρ course.done) (hb : ρ b = some l.trail)
    (hmark : (name.name, ⟨b, l.index⟩) ∈ course.done.marks)
    (hl' : stmtAt? body l' = some (.label name span))
    (htaken : ⟨.labelTaken name.name, span⟩ ∉ s.added s') : l' = l := by
  obtain ⟨b', hb', hdone⟩ := hcomplete.exists_done hl'
  rcases hdone.label rfl with hmark' | hrefused
  · have hsame := List.inj_on_of_nodup_map hcomplete.names hmark' hmark rfl
    obtain ⟨rfl, hindex⟩ := Place.mk.inj (Prod.mk.inj hsame).2
    obtain ⟨t, i⟩ := l
    obtain ⟨t', i'⟩ := l'
    cases hb'.symm.trans hb
    exact congrArg (Spot.mk t) hindex
  · exact absurd (State.mem_added_left (course.le_left.trans course.after) hrefused) htaken

end Course

/-- A goto of a body that is neither without a label nor past a declaration has its label,
which is the only one of the name that is not refused, and each variable in scope at the label
is in scope at the goto, unless it is the variable of a loop. -/
theorem goto_in_scope (h : run p o n c (checkBody id ownerTypes types) s = some ((), s'))
    {g : Spot} {label : Ident} {span : Span}
    (hg : stmtAt? (p.func id).decl.body.stmts g = some (.goto label span))
    (hskips : ⟨.gotoSkipsDeclaration label.name, span⟩ ∉ s.added s')
    (hunknown : ⟨.unknownLabel label.name, span⟩ ∉ s.added s') :
    ∃ l name lspan, stmtAt? (p.func id).decl.body.stmts l = some (.label name lspan) ∧
      name.name = label.name ∧
      (∀ l' name' lspan', stmtAt? (p.func id).decl.body.stmts l' = some (.label name' lspan') →
        name'.name = label.name → ⟨.labelTaken label.name, lspan'⟩ ∉ s.added s' → l' = l) ∧
      ∀ decl v, InScope (p.func id).decl.body.stmts l decl v →
        InScope (p.func id).decl.body.stmts g decl v ∨
        ∃ stmt, stmtAt? (p.func id).decl.body.stmts decl = some stmt ∧ v ∈ stmt.loopNames := by
  obtain ⟨course⟩ := course_checkBody h
  generalize (p.func id).decl.body.stmts = body at course hg ⊢
  obtain ⟨ρ, hcomplete⟩ := course.exists_complete
  obtain ⟨b, hb, hdone⟩ := hcomplete.exists_done hg
  obtain ⟨l, b', name, lspan, hl, hname, hb', hmark, hjump⟩ :=
    course.exists_label hcomplete (hdone.goto rfl) hskips hunknown
  refine ⟨l, name, lspan, hl, hname, fun l' name' lspan' hl' hname' htaken => ?_,
    fun decl v hv => hcomplete.in_scope hg hb hb' hjump hv⟩
  rw [← hname'] at htaken
  exact course.label_unique hcomplete hb' (hname' ▸ hmark) hl' htaken

end Bodies

/-- A package of one function, which has neither parameters nor a result. -/
def bodyPackage (stmts : List Stmt) : Package where
  funcs := #[{
    name := "f"
    file := 0
    decl := {
      name := ⟨"f", default⟩
      isUnsafe := false
      generics := []
      receiver := none
      params := []
      ret := ⟨none, []⟩
      body := ⟨stmts, false, default⟩
      span := default }
    owner := none
    generics := []
    sig := ⟨[], .void, false, false, false⟩ }]

/-- `let x = 1 again: { let y = 2 goto again }` -/
def jumpOut : List Stmt :=
  [.declare ⟨"x", default⟩ false false none (some (.literal (.int 1) default)) default,
    .label ⟨"again", default⟩ default,
    .block ⟨[.declare ⟨"y", default⟩ false false none (some (.literal (.int 2) default)) default,
      .goto ⟨"again", default⟩ default], false, default⟩]

theorem goto_in_scope_jumpOut : ∃ s',
    run (bodyPackage jumpOut) {} 3 {} (checkBody 0 [] []) {} = some ((), s') ∧
    ⟨.gotoSkipsDeclaration "again", default⟩ ∉ ({} : State).added s' ∧
    ⟨.unknownLabel "again", default⟩ ∉ ({} : State).added s' ∧
    InScope jumpOut ⟨[], 1⟩ ⟨[], 0⟩ "x" ∧ InScope jumpOut ⟨[⟨2, 0⟩], 1⟩ ⟨[], 0⟩ "x" := by
  have heval : ((run (bodyPackage jumpOut) {} 3 {} (checkBody 0 [] []) {}).any fun r =>
      decide (⟨.gotoSkipsDeclaration "again", default⟩ ∉ ({} : State).added r.2 ∧
        ⟨.unknownLabel "again", default⟩ ∉ ({} : State).added r.2 ∧
        ⟨.labelTaken "again", default⟩ ∉ ({} : State).added r.2)) = true := by
    decide +kernel
  obtain ⟨⟨⟨⟩, s'⟩, hrun, hsilent⟩ := (Option.any_eq_true _ _).mp heval
  obtain ⟨hskips, hunknown, htaken⟩ := of_decide_eq_true hsilent
  have hlabel : InScope jumpOut ⟨[], 1⟩ ⟨[], 0⟩ "x" :=
    .declared rfl (by decide) (i := 1) (by simp [around]) (by decide)
  refine ⟨s', hrun, hskips, hunknown, hlabel, ?_⟩
  obtain ⟨l, name, span, -, -, honly, hscope⟩ := goto_in_scope (g := ⟨[⟨2, 0⟩], 1⟩) hrun rfl hskips
    hunknown
  obtain rfl := honly ⟨[], 1⟩ _ _ rfl rfl htaken
  refine (hscope ⟨[], 0⟩ "x" hlabel).resolve_right ?_
  rintro ⟨stmt, hstmt, hv⟩
  cases hstmt
  cases hv

/-- `goto inner for i in "ab" { inner: _ = i }` -/
def jumpIntoLoop : List Stmt :=
  [.goto ⟨"inner", default⟩ default,
    .loop (.forEach [⟨"i", default⟩] (.literal (.text "ab") default)) ⟨[
      .label ⟨"inner", default⟩ default,
      .assign [.ident ⟨"_", default⟩] none [.ident ⟨"i", default⟩] default], false, default⟩
    default]

/-- The jump enters the scope of the variable of the loop, and nothing is reported. -/
theorem jumpIntoLoop_silent : ∃ s',
    run (bodyPackage jumpIntoLoop) {} 3 {} (checkBody 0 [] []) {} = some ((), s') ∧
    s'.diags.size = 0 ∧
    stmtAt? jumpIntoLoop ⟨[], 0⟩ = some (.goto ⟨"inner", default⟩ default) ∧
    stmtAt? jumpIntoLoop ⟨[⟨1, 0⟩], 0⟩ = some (.label ⟨"inner", default⟩ default) ∧
    InScope jumpIntoLoop ⟨[⟨1, 0⟩], 0⟩ ⟨[], 1⟩ "i" ∧ ¬InScope jumpIntoLoop ⟨[], 0⟩ ⟨[], 1⟩ "i" := by
  have heval : ((run (bodyPackage jumpIntoLoop) {} 3 {} (checkBody 0 [] []) {}).any fun r =>
      r.2.diags.size == 0) = true := by
    decide +kernel
  obtain ⟨⟨⟨⟩, s'⟩, hrun, hsize⟩ := (Option.any_eq_true _ _).mp heval
  refine ⟨s', hrun, by simpa using hsize, rfl, rfl,
    .loop rfl (by decide) (i := 0) (by simp [around]), ?_⟩
  intro h
  cases h with
  | declared hstmt hv =>
    cases hstmt
    cases hv
  | loop _ _ haround => simp [around] at haround

end Check

end JaneCheck
