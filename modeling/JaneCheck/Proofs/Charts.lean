import JaneCheck.Proofs.JumpPaths
import JaneCheck.Proofs.ScopeDiscipline

/-!
# Charts of a body

The check of a body opens a block for each block that is written in it. A chart says
which one a block stands for: the blocks that are written are named by trails, the way
down to them from the body. `Draws` is the judgement of a check that goes on with a chart.
It extends the chart by the blocks that it opens, and after it each statement of these is
`Done`: its declarations, gotos and labels are recorded at its place. What was done stays
done, so the statements are put together without a look at what they record.
-/

namespace JaneCheck

variable {t : Trail} {stmts : List Stmt}

namespace Syntax

/-! ## Spots -/

theorem Stmt.inner_branch {branches : List (Branch Stmt)} {branch : Branch Stmt} {j : Nat}
    (otherwise : Option (Block Stmt)) (span : Span) (h : branches[j]? = some branch) :
    (Stmt.branch branches otherwise span).inner[j]? = some branch.body.stmts := by
  have hlt : j < (branches.map (·.body.stmts)).length := by
    simpa using (List.getElem?_eq_some_iff.mp h).1
  rw [inner, List.getElem?_append_left hlt, List.getElem?_map, h]
  rfl

theorem Stmt.inner_select {cases : List (Case Stmt)} {case : Case Stmt} {j : Nat}
    (subject : Option Expr) (otherwise : Option (Case Stmt)) (span : Span)
    (h : cases[j]? = some case) :
    (Stmt.select subject cases otherwise span).inner[j]? = some case.body.stmts := by
  have hlt : j < (cases.map (·.body.stmts)).length := by
    simpa using (List.getElem?_eq_some_iff.mp h).1
  rw [inner, List.getElem?_append_left hlt, List.getElem?_map, h]
  rfl

/-- The names that a statement declares for those after it. -/
def Stmt.declared : Stmt → List String
  | .declare name _ _ _ _ _ => [name.name]
  | .declareMany names _ _ => names.map (·.name.name)
  | _ => []

/-- A turn from a block into a block of one of its statements. -/
structure Turn where
  stmt : Nat
  block : Nat

/-- The way from a body to a block in it, the last turn first. -/
abbrev Trail := List Turn

/-- The place of a statement in a body. -/
structure Spot where
  trail : Trail
  index : Nat

def blockAt? (body : List Stmt) : Trail → Option (List Stmt)
  | [] => some body
  | turn :: t => do
    let stmts ← blockAt? body t
    let stmt ← stmts[turn.stmt]?
    stmt.inner[turn.block]?

def stmtAt? (body : List Stmt) (spot : Spot) : Option Stmt := do
  let stmts ← blockAt? body spot.trail
  stmts[spot.index]?

/-- A spot and the spots of the statements around it, from the innermost outward. -/
def around : Trail → Nat → List Spot
  | [], i => [⟨[], i⟩]
  | turn :: t, i => ⟨turn :: t, i⟩ :: around t turn.stmt

theorem blockAt?_cons {body : List Stmt} {turn : Turn} : blockAt? body (turn :: t) = some stmts ↔
      ∃ stmt, stmtAt? body ⟨t, turn.stmt⟩ = some stmt ∧ stmt.inner[turn.block]? = some stmts := by
  simp only [blockAt?, stmtAt?, Option.bind_eq_bind, Option.bind_eq_some_iff]
  constructor
  · rintro ⟨outer, houter, stmt, hstmt, h⟩
    exact ⟨stmt, ⟨outer, houter, hstmt⟩, h⟩
  · rintro ⟨stmt, ⟨outer, houter, hstmt⟩, h⟩
    exact ⟨outer, houter, stmt, hstmt, h⟩

theorem stmtAt?_of_block {body : List Stmt} (h : blockAt? body t = some stmts) (i : Nat) :
    stmtAt? body ⟨t, i⟩ = stmts[i]? := by
  rw [stmtAt?, h]
  rfl

end Syntax

namespace Check

open Demand (covers_lax)
open Syntax

/-! ## What only grows -/

/-- Blocks, labels, gotos and diagnostics that were there are there, as they were. -/
structure State.Widens (s s' : State) : Prop where
  le : s.Le s'
  blocks : ∀ {b : BlockId} {block : Scopes.Block}, s.scopes.blocks[b]? = some block →
    ∃ block', s'.scopes.blocks[b]? = some block' ∧ block.Extends block'
  marks : s.marks ⊆ s'.marks
  gotos : s.gotos ⊆ s'.gotos

variable {i : Nat} {s s' : State} {b : BlockId} {stmt : Stmt}

theorem State.Widens.trans {s'' : State} (h : s.Widens s') (h' : s'.Widens s'') : s.Widens s'' := by
  refine ⟨h.le.trans h'.le, fun hb => ?_, fun _ hm => h'.marks (h.marks hm),
    fun _ hg => h'.gotos (h.gotos hg)⟩
  obtain ⟨block1, hb1, hext⟩ := h.blocks hb
  obtain ⟨block2, hb2, hext'⟩ := h'.blocks hb1
  exact ⟨block2, hb2, hext.trans hext'⟩

theorem widens_of_stays {p : Package} {o : Options} {c : Context} (h : (staying p o).course c s s')
    (hle : s.Le s') : s.Widens s' := by
  obtain ⟨hmarks, hgotos⟩ := h.marks not_false
  refine ⟨hle, fun hb => ?_, fun _ hm => hmarks ▸ hm, fun _ hg => hgotos ▸ hg⟩
  obtain ⟨block', hb', hext, -⟩ := h.grows.kept hb
  exact ⟨block', hb', hext⟩

theorem State.Widens.size_le (h : s.Widens s') : s.scopes.blocks.size ≤ s'.scopes.blocks.size := by
  refine Nat.le_of_not_lt fun hlt => ?_
  obtain ⟨block, hblock, -⟩ := h.blocks (Array.getElem?_eq_getElem hlt)
  exact Nat.lt_irrefl _ (Array.getElem?_eq_some_iff.mp hblock).1

theorem State.Widens.outer? (h : s.Widens s') {q : Place} (hb : s.scopes.outer? b = some q) :
    s'.scopes.outer? b = some q := by
  simp only [Scopes.outer?, Option.bind_eq_bind, Option.bind_eq_some_iff] at hb ⊢
  obtain ⟨block, hblock, parent, hparent, hq⟩ := hb
  obtain ⟨block', hblock', hext⟩ := h.blocks hblock
  exact ⟨block', hblock', parent, hext.parent.trans hparent, hext.index ▸ hq⟩

/-! ## Charts -/

/-- Which block of the body a block stands for. -/
abbrev Chart := BlockId → Option Trail

def Chart.Le (ρ ρ' : Chart) : Prop := ∀ ⦃b t⦄, ρ b = some t → ρ' b = some t

/-- The blocks of the chart form a tree below `root` in the way that the trails say. -/
structure Chart.Fits (root : BlockId) (ρ : Chart) (s : State) : Prop where
  bounds : ∀ {b t}, ρ b = some t → root ≤ b ∧ b < s.scopes.blocks.size
  top : ρ root = some []
  only : ∀ {b}, ρ b = some [] → b = root
  outer : ∀ {b turn t}, ρ b = some (turn :: t) →
    ∃ parent, s.scopes.outer? b = some ⟨parent, turn.stmt⟩ ∧ ρ parent = some t

namespace Chart.Fits

variable {root b : BlockId} {ρ : Chart} {s s' : State} {t : Trail} {i : Nat}

theorem widen (h : ρ.Fits root s) (hs : s.Widens s') : ρ.Fits root s' where
  bounds hb := ⟨(h.bounds hb).1, Nat.lt_of_lt_of_le (h.bounds hb).2 hs.size_le⟩
  top := h.top
  only := h.only
  outer hb := by
    obtain ⟨parent, houter, hparent⟩ := h.outer hb
    exact ⟨parent, hs.outer? houter, hparent⟩

theorem path_cons {turn : Turn} (h : ρ.Fits root s) (hb : ρ b = some (turn :: t)) :
    ∃ parent, s.scopes.path b i = ⟨b, i⟩ :: s.scopes.path parent turn.stmt ∧ ρ parent = some t := by
  obtain ⟨parent, houter, hparent⟩ := h.outer hb
  refine ⟨parent, ?_, hparent⟩
  rw [Scopes.path_eq, Scopes.above, houter]

/-- Every spot around a statement has its position on the path. -/
theorem exists_mem_path (h : ρ.Fits root s) (hb : ρ b = some t) {spot : Spot}
    (hspot : spot ∈ around t i) :
    ∃ q ∈ s.scopes.path b i, q.index = spot.index ∧ ρ q.block = some spot.trail := by
  induction t generalizing b i with
  | nil =>
    obtain rfl := List.mem_singleton.mp hspot
    exact ⟨⟨b, i⟩, by simp [Scopes.path_eq], rfl, hb⟩
  | cons turn t ih =>
    obtain ⟨parent, hpath, hparent⟩ := h.path_cons (i := i) hb
    rw [hpath]
    rcases List.mem_cons.mp hspot with rfl | hspot
    · exact ⟨⟨b, i⟩, by simp, rfl, hb⟩
    · obtain ⟨q, hq, hq'⟩ := ih hparent hspot
      exact ⟨q, List.mem_cons_of_mem _ hq, hq'⟩

/-- A position on the path in a block of the chart is that of a spot around. -/
theorem mem_around (h : ρ.Fits root s) (hb : ρ b = some t) {q : Place} {t' : Trail}
    (hq : q ∈ s.scopes.path b i) (hblock : ρ q.block = some t') : ⟨t', q.index⟩ ∈ around t i := by
  induction t generalizing b i with
  | nil =>
    rw [Scopes.path_eq] at hq
    rcases List.mem_cons.mp hq with rfl | hq
    · cases hb.symm.trans hblock
      simp [around]
    · -- the root of the chart is the outermost of its blocks
      have hlt := Scopes.above_lt hq
      rw [h.only hb] at hlt
      exact absurd (h.bounds hblock).1 (Nat.not_le_of_lt hlt)
  | cons turn t ih =>
    obtain ⟨parent, hpath, hparent⟩ := h.path_cons (i := i) hb
    rw [hpath] at hq
    rcases List.mem_cons.mp hq with rfl | hq
    · cases hb.symm.trans hblock
      simp [around]
    · exact List.mem_cons_of_mem _ (ih hparent hq)

end Chart.Fits

namespace Chart

variable {ρ : Chart} {b : BlockId} {t : Trail}

/-- The chart with one more block. -/
def add (ρ : Chart) (b : BlockId) (t : Trail) : Chart := fun b' => if b' = b then some t else ρ b'

theorem add_self : ρ.add b t b = some t := if_pos rfl

theorem add_of_ne {b' : BlockId} (h : b' ≠ b) : ρ.add b t b' = ρ b' := if_neg h

theorem le_add (h : ρ b = none) : ρ.Le (ρ.add b t) := by
  intro b' t' hb'
  rw [add_of_ne, hb']
  rintro rfl
  cases h.symm.trans hb'

end Chart

/-- The state in which a block is opened at the statement `i` of the block `b`. -/
def State.enter (s : State) (b : BlockId) (i : Nat) (isUnsafe : Bool) : State :=
  { s with scopes := (s.scopes.enter (some b) i isUnsafe).2 }

theorem State.widens_enter (s : State) (b : BlockId) (i : Nat) (isUnsafe : Bool) :
    s.Widens (s.enter b i isUnsafe) := by
  refine ⟨by constructor <;> simp [State.enter], fun hb => ?_, fun _ hm => hm, fun _ hg => hg⟩
  have hgrows : s.scopes.Spreads (some b) (s.enter b i isUnsafe).scopes :=
    (Scopes.spreads_of_bare rfl).enter
  obtain ⟨block', hb', hext, -⟩ := hgrows.kept hb
  exact ⟨block', hb', hext⟩

/-- A block that is opened at a statement of a block of the chart. -/
theorem Chart.Fits.enter {root : BlockId} {ρ : Chart} (h : ρ.Fits root s) (hb : ρ b = some t)
    (k : Nat) (isUnsafe : Bool) :
    (ρ.add s.scopes.blocks.size (⟨i, k⟩ :: t)).Fits root (s.enter b i isUnsafe) := by
  have hold {b' : BlockId} {t' : Trail} (hb' : ρ b' = some t') : b' ≠ s.scopes.blocks.size :=
    Nat.ne_of_lt (h.bounds hb').2
  have hsize : (s.enter b i isUnsafe).scopes.blocks.size = s.scopes.blocks.size + 1 :=
    Array.size_push _
  have hwide := h.widen (s.widens_enter b i isUnsafe)
  refine ⟨fun {b' t'} hb' => ?_, ?_, fun {b'} hb' => ?_, fun {b' turn t'} hb' => ?_⟩
  · by_cases hnew : b' = s.scopes.blocks.size
    · rw [hnew, hsize]
      exact ⟨Nat.le_of_lt (h.bounds h.top).2, Nat.lt_succ_self _⟩
    · rw [add_of_ne hnew] at hb'
      exact hwide.bounds hb'
  · rw [add_of_ne (hold h.top), h.top]
  · by_cases hnew : b' = s.scopes.blocks.size
    · rw [hnew, add_self] at hb'
      cases hb'
    · rw [add_of_ne hnew] at hb'
      exact h.only hb'
  · by_cases hnew : b' = s.scopes.blocks.size
    · rw [hnew, add_self] at hb'
      cases hb'
      refine ⟨b, ?_, (add_of_ne (hold hb)).trans hb⟩
      have hlt := (h.bounds hb).2
      subst hnew
      simp [Scopes.outer?, State.enter, Scopes.enter, hlt]
    · rw [add_of_ne hnew] at hb'
      obtain ⟨parent, houter, hparent⟩ := hwide.outer hb'
      exact ⟨parent, houter, (add_of_ne (hold hparent)).trans hparent⟩

/-! ## What is done -/

/-- A body whose blocks are opened from `root` on, in a run from the state `start`. -/
structure Drawing where
  body : List Stmt
  root : BlockId
  start : State

/-- The statement at `i` in the block `b`, which stands for `t`, is recorded. -/
structure Done (start : State) (t : Trail) (b : BlockId) (i : Nat) (stmt : Stmt) (ρ : Chart)
    (s : State) : Prop where
  declares : stmt.declared ≠ [] → ∃ block, s.scopes.blocks[b]? = some block ∧ i ∈ block.decls
  goto : ∀ {label span}, stmt = .goto label span → ⟨label.name, ⟨b, i⟩, span⟩ ∈ s.gotos
  label : ∀ {name span}, stmt = .label name span →
    (name.name, ⟨b, i⟩) ∈ s.marks ∨ ⟨.labelTaken name.name, span⟩ ∈ start.added s
  inner : ∀ k < stmt.inner.length, ∃ b', ρ b' = some (⟨i, k⟩ :: t)

/-- What holds on when the chart and the state grow. -/
def Stable (D : Chart → State → Prop) : Prop :=
  ∀ ⦃ρ ρ' s s'⦄, ρ.Le ρ' → s.Widens s' → D ρ s → D ρ' s'

theorem stable_done {start : State} : Stable (Done start t b i stmt) := by
  intro ρ ρ' s s' hchart hstate h
  refine ⟨fun hdeclared => ?_, fun hgoto => hstate.gotos (h.goto hgoto), fun hlabel => ?_,
    fun k hk => ?_⟩
  · obtain ⟨block, hblock, hi⟩ := h.declares hdeclared
    obtain ⟨block', hblock', hext⟩ := hstate.blocks hblock
    exact ⟨block', hblock', hext.decls.subset hi⟩
  · exact (h.label hlabel).imp (fun hmark => hstate.marks hmark) (State.mem_added_left hstate.le)
  · obtain ⟨b', hb'⟩ := h.inner k hk
    exact ⟨b', hchart hb'⟩

namespace Drawing

/-- A label is there because of a statement of the body. -/
def Labelled (d : Drawing) (ρ : Chart) (mark : String × Place) : Prop :=
  ∃ t name span, ρ mark.2.block = some t ∧
    stmtAt? d.body ⟨t, mark.2.index⟩ = some (.label name span) ∧ name.name = mark.1

/-- The state that a chart describes, in the middle of the check of the body. -/
structure Drawn (d : Drawing) (ρ : Chart) (s : State) : Prop where
  fits : ρ.Fits d.root s
  labels : ∀ mark ∈ s.marks, d.Labelled ρ mark
  names : (s.marks.map (·.1)).Nodup
  le : d.start.Le s

/-- The chart and the state go on, and the new blocks are done. -/
structure Next (d : Drawing) (ρ : Chart) (s : State) (ρ' : Chart) (s' : State) : Prop where
  chart : ρ.Le ρ'
  widens : s.Widens s'
  drawn : d.Drawn ρ' s'
  done : ∀ ⦃b t⦄, ρ' b = some t → ρ b = none → ∀ ⦃i stmt⦄, stmtAt? d.body ⟨t, i⟩ = some stmt →
    Done d.start t b i stmt ρ' s'

variable {d : Drawing} {ρ ρ' ρ'' : Chart} {s s' s'' : State}

theorem Next.trans (h : d.Next ρ s ρ' s') (h' : d.Next ρ' s' ρ'' s'') : d.Next ρ s ρ'' s'' where
  chart _ _ hb := h'.chart (h.chart hb)
  widens := h.widens.trans h'.widens
  drawn := h'.drawn
  done b t hb hnew i stmt hstmt := by
    cases hmiddle : ρ' b with
    | none => exact h'.done hb hmiddle hstmt
    | some t' =>
      cases hb.symm.trans (h'.chart hmiddle)
      exact stable_done h'.chart h'.widens (h.done hmiddle hnew hstmt)

theorem Drawn.next (h : d.Drawn ρ s) (hwidens : s.Widens s')
    (hlabels : ∀ mark ∈ s'.marks, d.Labelled ρ mark) (hnames : (s'.marks.map (·.1)).Nodup) :
    d.Next ρ s ρ s' where
  chart _ _ hb := hb
  widens := hwidens
  drawn := ⟨h.fits.widen hwidens, hlabels, hnames, h.le.trans hwidens.le⟩
  done b t hb hnew := by cases hb.symm.trans hnew

theorem Drawn.stays {p : Package} {o : Options} {c : Context} (h : d.Drawn ρ s)
    (hstays : (staying p o).course c s s') (hle : s.Le s') : d.Next ρ s ρ s' := by
  have hmarks := (hstays.marks not_false).1
  exact h.next (widens_of_stays hstays hle) (hmarks ▸ h.labels) (hmarks ▸ h.names)

theorem Drawn.fresh (h : d.Drawn ρ s) : ρ s.scopes.blocks.size = none := by
  cases hρ : ρ s.scopes.blocks.size with
  | none => rfl
  | some t => exact absurd (h.fits.bounds hρ).2 (Nat.lt_irrefl _)

theorem Drawn.enter (h : d.Drawn ρ s) (hb : ρ b = some t) (k : Nat) (isUnsafe : Bool) :
    d.Drawn (ρ.add s.scopes.blocks.size (⟨i, k⟩ :: t)) (s.enter b i isUnsafe) := by
  refine ⟨h.fits.enter hb k isUnsafe, fun mark hmark => ?_, h.names,
    h.le.trans (s.widens_enter b i isUnsafe).le⟩
  obtain ⟨t', name, span, hblock, hstmt⟩ := h.labels mark hmark
  exact ⟨t', name, span, Chart.le_add h.fresh hblock, hstmt⟩

/-! ## The judgement -/

/-- In the context `c`, in the block `b`, which stands for `t`, the check goes on with
every chart, and after it `D` holds. -/
def Draws (d : Drawing) (p : Package) (o : Options) (n : Nat) (c : Context) (b : BlockId)
    (t : Trail) (x : Check α) (D : Chart → State → Prop) : Prop :=
  ∀ ρ s, d.Drawn ρ s → ρ b = some t → Leads .any (envAt p o n c) s x fun _ s' =>
    ∃ ρ', d.Next ρ s ρ' s' ∧ D ρ' s'

variable {k : Nat}

section Rules

variable {p : Package} {o : Options} {n : Nat} {c : Context} {b : BlockId} {t : Trail}
  {D D' : Chart → State → Prop}

theorem Draws.stays {x : Check α} {R : α → Prop} (h : (staying p o).Obeys x R) :
    d.Draws p o n c b t x fun _ _ => True := by
  intro ρ s hdrawn _ a s' hrun htrue
  exact ⟨ρ, hdrawn.stays (h n c s trivial hrun htrue).1 (Step.le _ hrun), trivial⟩

theorem Draws.pure (a : α) : d.Draws p o n c b t (pure a) fun _ _ => True :=
  .stays (.pure (M := fun _ => True) trivial)

theorem Draws.mono {x : Check α} (hx : d.Draws p o n c b t x D)
    (h : ∀ ρ s, D ρ s → D' ρ s) : d.Draws p o n c b t x D' := by
  intro ρ s hdrawn hb
  refine (hx ρ s hdrawn hb).mono ?_
  rintro _ s' ⟨ρ', hnext, hD⟩
  exact ⟨ρ', hnext, h ρ' s' hD⟩

theorem Draws.bind {x : Check α} {f : α → Check β} (hx : d.Draws p o n c b t x D)
    (hD : Stable D) (hf : ∀ a, d.Draws p o n c b t (f a) D') :
    d.Draws p o n c b t (x >>= f) fun ρ s => D ρ s ∧ D' ρ s := by
  intro ρ s hdrawn hb
  refine .bind (hx ρ s hdrawn hb) fun a s1 _ => ?_
  rintro ⟨ρ1, hnext, hfirst⟩
  refine (hf a ρ1 s1 hnext.drawn (hnext.chart hb)).mono ?_
  rintro _ s' ⟨ρ', hnext', hsecond⟩
  exact ⟨ρ', hnext.trans hnext', hD hnext'.chart hnext'.widens hfirst, hsecond⟩

theorem Draws.after {x : Check α} {f : α → Check β} {R : α → Prop} (hx : (staying p o).Obeys x R)
    (hf : ∀ a, d.Draws p o n c b t (f a) D) : d.Draws p o n c b t (x >>= f) D :=
  (Draws.bind (.stays hx) (fun _ _ _ _ _ _ _ => trivial) hf).mono fun _ _ h => h.2

theorem Draws.inContext {f : Excursion} {x : Check α}
    (hx : d.Draws p o n (f c) b t x D) : d.Draws p o n c b t (inContext f x) D :=
  fun ρ s hdrawn hb => .inContext (hx ρ s hdrawn hb)

/-- The block at the turn `k` of the current statement is opened and done. -/
theorem Draws.withBlock {x : BlockId → Check α} {isUnsafe : Bool} (hc : c.block = some b)
    (hstmts : blockAt? d.body (⟨c.index, k⟩ :: t) = some stmts)
    (hx : ∀ b', d.Draws p o n { c with block := some b', index := 0 } b' (⟨c.index, k⟩ :: t) (x b') fun ρ s => ∀ i stmt, stmts[i]? = some stmt → Done d.start (⟨c.index, k⟩ :: t) b' i stmt ρ s) :
    d.Draws p o n c b t (withBlock isUnsafe x) fun ρ _ =>
      ∃ b', ρ b' = some (⟨c.index, k⟩ :: t) := by
  intro ρ s hdrawn hb
  refine .context (.state ?_)
  refine .bind (M := fun _ s' => s' = s.enter b c.index isUnsafe) (leads_update ?_) ?_
  · rw [State.enter, ← hc]
    rfl
  rintro _ s1 - rfl
  have hentered := hdrawn.enter (i := c.index) hb k isUnsafe
  refine .bind (.inContext (hx _ _ _ hentered Chart.add_self)) ?_
  rintro a s2 - ⟨ρ2, hnext, hdone⟩
  refine .bind (keeps_reportUnused (K := staying p o) _ n c s2 trivial) fun _ s3 hrun hunused => .pure ?_
  have hclosed := hnext.drawn.stays hunused.1 (Step.le _ hrun)
  have hall := hnext.trans hclosed
  have hself : ρ2 s.scopes.blocks.size = some (⟨c.index, k⟩ :: t) := hnext.chart Chart.add_self
  refine ⟨ρ2, ⟨fun _ _ h => hnext.chart (Chart.le_add hdrawn.fresh h),
    (s.widens_enter _ _ _).trans hall.widens, hall.drawn, ?_⟩, _, hself⟩
  intro b' t' hb' hnew i stmt hstmt
  by_cases heq : b' = s.scopes.blocks.size
  · subst heq
    cases hself.symm.trans hb'
    rw [stmtAt?_of_block hstmts] at hstmt
    exact stable_done hclosed.chart hclosed.widens (hdone i stmt hstmt)
  · exact hall.done hb' ((Chart.add_of_ne heq).trans hnew) hstmt

end Rules

/-! ## Statements -/

section Statements

variable {p : Package} {o : Options} {n : Nat} {c : Context} {b : BlockId} {t : Trail}

theorem draws_recordDecl (hc : c.block = some b) :
    d.Draws p o n c b t recordDecl fun _ s =>
      ∃ block, s.scopes.blocks[b]? = some block ∧ c.index ∈ block.decls := by
  intro ρ s hdrawn hb
  have hblock := Array.getElem?_eq_getElem (hdrawn.fits.bounds hb).2
  refine .context ?_
  split
  next b' hb' =>
    cases hc.symm.trans hb'
    have hstays := (staying p o).record (s := s) trivial hc
    refine leads_update ⟨ρ, hdrawn.stays hstays (by constructor <;> simp), ?_⟩
    simp only [Scopes.modifyBlock, Array.getElem?_modify, hblock]
    exact ⟨_, rfl, List.mem_cons_self⟩
  next hnone => exact (hnone b hc).elim

theorem leads_place? (hc : c.block = some b) :
    Leads .any (envAt p o n c) s place? fun a s' => a = some ⟨b, c.index⟩ ∧ s = s' := by
  refine .context (.pure ⟨?_, rfl⟩)
  show c.block.map _ = _
  rw [hc]
  rfl

theorem draws_checkGoto (label : Ident) (span : Span) (hc : c.block = some b) :
    d.Draws p o n c b t (checkGoto label span) (Done d.start t b c.index (.goto label span)) := by
  intro ρ s hdrawn hb
  refine .bind (leads_place? hc) ?_
  rintro _ _ - ⟨rfl, rfl⟩
  refine leads_update ⟨ρ, hdrawn.next ?_ hdrawn.labels hdrawn.names, ?_⟩
  · exact ⟨by constructor <;> simp, fun {_} {block} h => ⟨block, h, .refl block⟩,
      fun _ h => h, List.subset_append_left _ _⟩
  · refine ⟨nofun, ?_, nofun, nofun⟩
    rintro _ _ ⟨⟩
    simp

theorem draws_checkLabel (name : Ident) (span : Span) (hc : c.block = some b)
    (hstmt : stmtAt? d.body ⟨t, c.index⟩ = some (.label name span)) :
    d.Draws p o n c b t (checkLabel name span) (Done d.start t b c.index (.label name span)) := by
  intro ρ s hdrawn hb
  have hdone {s' : State} (h : (name.name, ⟨b, c.index⟩) ∈ s'.marks ∨
      ⟨.labelTaken name.name, span⟩ ∈ d.start.added s') :
      Done d.start t b c.index (.label name span) ρ s' := by
    refine ⟨nofun, nofun, ?_, nofun⟩
    rintro _ _ ⟨⟩
    exact h
  refine .bind (leads_place? hc) ?_
  rintro _ _ - ⟨rfl, rfl⟩
  refine .state ?_
  split
  next =>
    intro _ s' hrun htrue
    have hnext := hdrawn.stays (keeps_report (K := staying p o) (.inr trivial) trivial n c s trivial hrun htrue).1
      (Step.le _ hrun)
    exact ⟨ρ, hnext, hdone (.inr (State.mem_added_right hdrawn.le (Step.le _ hrun)
      (mem_added_report hrun)))⟩
  next hfree =>
    have hnew : name.name ∉ s.marks.map (·.1) := by simpa [State.marks] using hfree
    have hmarks : State.marks { s with labels := s.labels ++
        [{ name := name.name, place := ⟨b, c.index⟩, span }] } =
        s.marks ++ [(name.name, ⟨b, c.index⟩)] := by
      simp [State.marks]
    refine leads_update ⟨ρ, hdrawn.next ?_ ?_ ?_, hdone (.inl (by rw [hmarks]; simp))⟩
    · refine ⟨by constructor <;> simp, fun {_} {block} h => ⟨block, h, .refl block⟩, ?_,
        fun _ h => h⟩
      rw [hmarks]
      exact List.subset_append_left _ _
    · rw [hmarks]
      refine List.forall_mem_append.mpr ⟨hdrawn.labels, List.forall_mem_singleton.mpr ?_⟩
      exact ⟨t, name, span, hb, hstmt, rfl⟩
    · rw [hmarks, List.map_append, List.nodup_append]
      refine ⟨hdrawn.names, by simp, fun a ha a' ha' => ?_⟩
      rw [List.mem_singleton.mp ha']
      rintro rfl
      exact hnew ha

/-- The blocks at `count` turns of the statement at `i`, from the turn `k` on, are there. -/
def Opened (t : Trail) (i k count : Nat) (ρ : Chart) (_ : State) : Prop :=
  ∀ j < count, ∃ b', ρ b' = some (⟨i, k + j⟩ :: t)

variable {count : Nat}

theorem stable_opened : Stable (Opened t i k count) := by
  intro ρ ρ' s s' hchart _ h j hj
  obtain ⟨b', hb'⟩ := h j hj
  exact ⟨b', hchart hb'⟩

theorem opened_cons (h : Opened t i k 1 ρ s) (h' : Opened t i (k + 1) count ρ s) :
    Opened t i k (count + 1) ρ s := by
  intro j hj
  cases j with
  | zero => exact h 0 (Nat.zero_lt_one)
  | succ j =>
    rw [Nat.add_comm j, ← Nat.add_assoc]
    exact h' j (Nat.lt_of_succ_lt_succ hj)

theorem opened_snoc (h : Opened t i k count ρ s) (h' : Opened t i (k + count) 1 ρ s) :
    Opened t i k (count + 1) ρ s := by
  intro j hj
  rcases Nat.lt_or_eq_of_le (Nat.le_of_lt_succ hj) with hlt | rfl
  · exact h j hlt
  · exact h' 0 (Nat.zero_lt_one)

theorem done_of_opened (h : Opened t i 0 stmt.inner.length ρ s) (hdeclared : stmt.declared = [])
    (hgoto : ∀ label span, stmt ≠ .goto label span) (hlabel : ∀ name span, stmt ≠ .label name span) :
    Done d.start t b i stmt ρ s := by
  refine ⟨fun h => absurd hdeclared h, fun h => absurd h (hgoto _ _),
    fun h => absurd h (hlabel _ _), fun k hk => ?_⟩
  have hopened := h k hk
  rwa [Nat.zero_add] at hopened

theorem draws_records {x : Check Unit} (h : (staying p o).Records x) (hc : c.block = some b)
    (hinner : stmt.inner = []) (hgoto : ∀ label span, stmt ≠ .goto label span)
    (hlabel : ∀ name span, stmt ≠ .label name span) :
    d.Draws p o n c b t x (Done d.start t b c.index stmt) := by
  obtain ⟨rest, rfl, hrest⟩ := h
  refine (Draws.bind (draws_recordDecl hc) ?_ fun _ => .stays hrest).mono fun ρ s h => ?_
  · rintro ρ ρ' s s' - hstate ⟨block, hblock, hi⟩
    obtain ⟨block', hblock', hext⟩ := hstate.blocks hblock
    exact ⟨block', hblock', hext.decls.subset hi⟩
  · exact ⟨fun _ => h.1, fun h => absurd h (hgoto _ _), fun h => absurd h (hlabel _ _),
      fun k hk => by simp [hinner] at hk⟩

/-- A block of the current statement whose statements are drawn in whatever block. -/
theorem Draws.block {isUnsafe : Bool} {x : BlockId → Check Unit} (hc : c.block = some b)
    (hstmts : blockAt? d.body (⟨c.index, k⟩ :: t) = some stmts)
    (hx : ∀ b', d.Draws p o n { c with block := some b', index := 0 } b' (⟨c.index, k⟩ :: t) (x b') fun ρ s => ∀ i stmt, 0 ≤ i → stmts[i]? = some stmt → Done d.start (⟨c.index, k⟩ :: t) b' i stmt ρ s) :
    d.Draws p o n c b t (Check.withBlock isUnsafe x) (Opened t c.index k 1) := by
  refine (Draws.withBlock hc hstmts fun b' => (hx b').mono fun _ _ h i stmt =>
    h i stmt (Nat.zero_le i)).mono fun ρ s h j hj => ?_
  obtain rfl := Nat.lt_one_iff.mp hj
  exact h

end Statements

section Bodies

variable {p : Package} {o : Options} {n : Nat}

mutual

theorem draws_checkFrom {c : Context} {b : BlockId} {t : Trail} (stmts all : List Stmt) (i : Nat)
    (label : Option String) (hc : c.block = some b) (hall : blockAt? d.body t = some all)
    (hstmts : all.drop i = stmts) :
    d.Draws p o n c b t (checkFrom stmts i label) fun ρ s =>
      ∀ j stmt, i ≤ j → all[j]? = some stmt → Done d.start t b j stmt ρ s := by
  match stmts with
  | [] =>
    refine (Draws.pure ()).mono fun ρ s _ j stmt hj hstmt => ?_
    have hlen := List.drop_eq_nil_iff.mp hstmts
    have hlt := (List.getElem?_eq_some_iff.mp hstmt).1
    omega
  | x :: rest =>
    have hx : all[i]? = some x := by
      rw [← List.head?_drop, hstmts]
      rfl
    have hrest : all.drop (i + 1) = rest := by
      rw [← List.tail_drop, hstmts]
      rfl
    have hstmt : stmtAt? d.body ⟨t, i⟩ = some x := (stmtAt?_of_block hall i).trans hx
    refine (Draws.bind (.inContext (draws_checkStmt x label hc hstmt)) stable_done fun _ =>
      draws_checkFrom rest all (i + 1) _ hc hall hrest).mono fun ρ s h j stmt hj hj' => ?_
    rcases Nat.eq_or_lt_of_le hj with rfl | hlt
    · cases hx.symm.trans hj'
      exact h.1
    · exact h.2 j stmt hlt hj'

theorem draws_checkStmt {c : Context} {b : BlockId} {t : Trail} (stmt : Stmt)
    (label : Option String) (hc : c.block = some b)
    (hstmt : stmtAt? d.body ⟨t, c.index⟩ = some stmt) :
    d.Draws p o n c b t (checkStmt stmt label) (Done d.start t b c.index stmt) := by
  have hplain {x : Check Unit} (hx : (staying p o).Obeys x fun _ => True) (hinner : stmt.inner = [])
      (hdeclared : stmt.declared = []) (hgoto : ∀ label span, stmt ≠ .goto label span)
      (hlabel : ∀ name span, stmt ≠ .label name span) :
      d.Draws p o n c b t x (Done d.start t b c.index stmt) :=
    (Draws.stays hx).mono fun _ _ _ =>
      done_of_opened (by rw [hinner]; exact nofun) hdeclared hgoto hlabel
  have hblock {k : Nat} {stmts : List Stmt} (hk : stmt.inner[k]? = some stmts) :
      blockAt? d.body (⟨c.index, k⟩ :: t) = some stmts :=
    blockAt?_cons.mpr ⟨stmt, hstmt, hk⟩
  match stmt with
  | .declare name mutable constant type value span =>
    exact draws_records (records_checkDeclare trivial (within_moving _)) hc rfl nofun nofun
  | .declareMany names values span =>
    exact draws_records (records_checkDeclareMany trivial (within_moving _)) hc rfl nofun nofun
  | .assign .. | .step .. | .expr _ | .ret .. =>
    exact hplain (moving_of_asks fun _ => asks_checkStmt rfl label) rfl rfl nofun nofun
  | .branch branches none span =>
    refine (draws_checkBranches branches 0 hc fun j branch hj => hblock ?_).mono fun ρ s h =>
      done_of_opened ?_ rfl nofun nofun
    · rw [Nat.zero_add]
      exact Stmt.inner_branch none span hj
    · simpa [Stmt.inner] using h
  | .branch branches (some ⟨stmts, isUnsafe, bspan⟩) span =>
    have hlast : blockAt? d.body (⟨c.index, 0 + branches.length⟩ :: t) = some stmts :=
      hblock (by simp [Stmt.inner])
    refine (Draws.bind (draws_checkBranches branches 0 hc fun j branch hj => hblock ?_)
      stable_opened fun _ => .block hc hlast fun b' =>
        draws_checkFrom stmts stmts 0 none rfl hlast rfl).mono fun ρ s h =>
      done_of_opened ?_ rfl nofun nofun
    · rw [Nat.zero_add]
      exact Stmt.inner_branch _ span hj
    · simpa [Stmt.inner] using opened_snoc h.1 h.2
  | .loop kind ⟨stmts, isUnsafe, bspan⟩ span =>
    refine (Draws.after (moving_of_asks fun _ => asks_loopVars_any kind) fun vars => .inContext ?_).mono
      fun ρ s h => done_of_opened h rfl nofun nofun
    refine .block (k := 0) hc (hblock rfl) fun b' => ?_
    exact .after (.listForM fun _ _ => keeps_declare trivial ⟨covers_lax _, trivial⟩) fun _ =>
      draws_checkFrom stmts stmts 0 none rfl (hblock rfl) rfl
  | .select subject cases none span =>
    refine Draws.mono (D := Opened t c.index 0 cases.length) ?_ fun ρ s h =>
      done_of_opened ?_ rfl nofun nofun
    · refine .after (moving_of_asks fun _ => asks_subject fun _ _ => trivial) fun value => .inContext ?_
      refine draws_checkCases _ _ _ cases 0 hc fun j case hj => hblock ?_
      rw [Nat.zero_add]
      exact Stmt.inner_select subject none span hj
    · simpa [Stmt.inner] using h
  | .select subject cases (some ⟨exprs, ⟨stmts, isUnsafe, bspan⟩, cspan⟩) span =>
    have hlast : blockAt? d.body (⟨c.index, 0 + cases.length⟩ :: t) = some stmts :=
      hblock (by simp [Stmt.inner])
    refine Draws.mono (D := Opened t c.index 0 (cases.length + 1)) ?_ fun ρ s h =>
      done_of_opened ?_ rfl nofun nofun
    · refine .after (moving_of_asks fun _ => asks_subject fun _ _ => trivial) fun value => .inContext ?_
      refine Draws.mono (D := fun ρ s => Opened t c.index 0 cases.length ρ s ∧
        Opened t c.index (0 + cases.length) 1 ρ s) (.bind ?_ stable_opened fun _ => ?_)
        fun _ _ h => opened_snoc h.1 h.2
      · refine draws_checkCases _ _ _ cases 0 hc fun j case hj => hblock ?_
        rw [Nat.zero_add]
        exact Stmt.inner_select subject _ span hj
      · refine .after (moving_of_asks fun _ => asks_checkCaseExprs _ (fun _ _ => covers_lax _) fun _ _ => trivial) fun _ => ?_
        exact .block hc hlast fun b' => .inContext
          (draws_checkFrom stmts stmts 0 none rfl hlast rfl)
    · simpa [Stmt.inner] using h
  | .leave label span =>
    exact hplain (keeps_checkJump trivial _ _ (fun _ _ => trivial) trivial) rfl rfl nofun nofun
  | .again label span =>
    exact hplain (keeps_checkJump trivial _ _ (fun _ _ => trivial) trivial) rfl rfl nofun nofun
  | .goto label span =>
    exact draws_checkGoto label span hc
  | .label name span =>
    exact draws_checkLabel name span hc hstmt
  | .fallthrough span =>
    exact hplain (keeps_checkFallthrough trivial trivial) rfl rfl nofun nofun
  | .block ⟨stmts, isUnsafe, bspan⟩ =>
    refine (Draws.block (k := 0) hc (hblock rfl) fun b' =>
      draws_checkFrom stmts stmts 0 none rfl (hblock rfl) rfl).mono fun ρ s h =>
      done_of_opened h rfl nofun nofun
  | .typeAlias a =>
    exact hplain (keeps_checkLocalAlias ⟨trivial, a.target.within_of_forall fun _ => trivial⟩) rfl rfl nofun nofun

theorem draws_checkBranches {c : Context} {b : BlockId} {t : Trail}
    (branches : List (Syntax.Branch Stmt)) (k : Nat)
    (hc : c.block = some b) (hblocks : ∀ j branch, branches[j]? = some branch →
      blockAt? d.body (⟨c.index, k + j⟩ :: t) = some branch.body.stmts) :
    d.Draws p o n c b t (checkBranches branches) (Opened t c.index k branches.length) := by
  match branches with
  | [] =>
    exact (Draws.pure ()).mono fun _ _ _ => nofun
  | ⟨cond, ⟨stmts, isUnsafe, bspan⟩⟩ :: rest =>
    refine .after (moving_of_asks fun _ => asks_checkCondition rfl trivial) fun _ => ?_
    refine (Draws.bind (.block hc (hblocks 0 _ rfl) fun b' =>
      draws_checkFrom stmts stmts 0 none rfl (hblocks 0 _ rfl) rfl) stable_opened fun _ =>
      draws_checkBranches rest (k + 1) hc fun j branch hj => ?_).mono fun _ _ h =>
      opened_cons h.1 h.2
    rw [Nat.add_assoc, Nat.add_comm 1]
    exact hblocks (j + 1) branch hj

theorem draws_checkCases {c : Context} {b : BlockId} {t : Trail} (hasSubject : Bool)
    (subject : Option Value) (hasDefault : Bool) (cases : List (Syntax.Case Stmt)) (k : Nat)
    (hc : c.block = some b) (hblocks : ∀ j case, cases[j]? = some case →
      blockAt? d.body (⟨c.index, k + j⟩ :: t) = some case.body.stmts) :
    d.Draws p o n c b t (checkCases hasSubject subject hasDefault cases)
      (Opened t c.index k cases.length) := by
  match cases with
  | [] =>
    exact (Draws.pure ()).mono fun _ _ _ => nofun
  | ⟨exprs, ⟨stmts, isUnsafe, bspan⟩, cspan⟩ :: rest =>
    refine .after (moving_of_asks fun _ => asks_checkCaseExprs _ (fun _ _ => covers_lax _) fun _ _ => trivial) fun _ => ?_
    refine (Draws.bind (.block hc (hblocks 0 _ rfl) fun b' => .inContext
      (draws_checkFrom stmts stmts 0 none rfl (hblocks 0 _ rfl) rfl)) stable_opened fun _ =>
      draws_checkCases hasSubject subject hasDefault rest (k + 1) hc fun j case hj => ?_).mono
      fun _ _ h => opened_cons h.1 h.2
    rw [Nat.add_assoc, Nat.add_comm 1]
    exact hblocks (j + 1) case hj

end

end Bodies

end Drawing

end Check

end JaneCheck
