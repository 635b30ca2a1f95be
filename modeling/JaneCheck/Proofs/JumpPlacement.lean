import JaneCheck.Proofs.Placement
import JaneCheck.Proofs.ScopeDiscipline
import Mathlib.Data.List.Forall2

/-!
# Misplaced jumps are reported

The check of a body reports each `break`, `continue` and `fallthrough` that is
where it may not stand, in the order of the text, and reports no other
(`jumps_blamed`).

The check knows where it is by its context alone. `Around` says that the
statements to leave in the context are those of the frames around a point, and
`Inside` that a list of statements is known to be the body of a case just when
the innermost frame is that of a match. A block inside a case is another block
than that of the case, as it is opened later.
-/

namespace JaneCheck

open Demand (covers_lax)
open Syntax (Branch Case Ident LoopKind Stmt)

namespace Flow

/-- What a `break` may leave by the frame. -/
def Frame.breakable? : Frame → Option Check.Breakable
  | .rest _ => none
  | .loop label _ _ => some ⟨label, true⟩
  | .select label _ => some ⟨label, false⟩

/-- What is reported of a jump that may not stand at the point. -/
def Point.Blamed (p : Point) (d : Diagnostic) : Prop :=
  match p.stmts with
  | .leave none span :: _ => d = ⟨.breakOutside, span⟩
  | .again none span :: _ => d = ⟨.continueOutside, span⟩
  | .leave (some label) _ :: _ | .again (some label) _ :: _ =>
    d = ⟨.invalidLabel, label.span⟩ ∨ d = ⟨.unknownLabel label.name, label.span⟩
  | .fallthrough span :: after =>
    match after, p.frames with
    | [], .select .. :: _ => d = ⟨.fallthroughInLastCase, span⟩
    | _, _ => d = ⟨.fallthroughMisplaced, span⟩
  | _ => False

theorem Point.Blamed.ofJump {p : Point} {d : Diagnostic} (h : p.Blamed d) :
    d.problem.ofJump = true := by
  unfold Blamed at h
  split at h
  · rw [h]
    rfl
  · rw [h]
    rfl
  · rcases h with rfl | rfl <;> rfl
  · rcases h with rfl | rfl <;> rfl
  · split at h <;> rw [h] <;> rfl
  · exact h.elim

section Targets

variable {fs : List Frame}

theorem takesBreak_eq_any (label : String) (f : Frame) :
    f.takesBreak (some label) = f.breakable?.any (·.label == some label) := by
  cases f <;> rfl

theorem exists_breakable {f : Frame} {label : Option String} (h : f.takesBreak label = true) :
    ∃ b, f.breakable? = some b ∧ b.isLoop = f.isLoop := by
  cases f with
  | rest _ => cases h
  | loop | select => exact ⟨_, rfl, rfl⟩

theorem any_breakables (loopsOnly : Bool) :
    (fs.filterMap Frame.breakable?).any (fun b => !loopsOnly || b.isLoop) =
      fs.any fun f => if loopsOnly then f.isLoop else f.takesBreak none := by
  rw [List.any_filterMap]
  congr 1
  funext f
  cases f <;> cases loopsOnly <;> rfl

theorem find_breakables (label : String) :
    (fs.filterMap Frame.breakable?).find? (·.label == some label) =
      (fs.find? (·.takesBreak (some label))).bind Frame.breakable? := by
  rw [List.find?_filterMap]
  simp only [takesBreak_eq_any]

end Targets

end Flow

namespace Check

open JaneCheck.Flow

/-! ## The judgement -/

/-- Of the points, those with a misplaced jump are blamed, and no other jump is. -/
structure Judged (ps : List Point) (s s' : State) : Prop where
  size_le : s.scopes.blocks.size ≤ s'.scopes.blocks.size
  blamed : List.Forall₂ Point.Blamed (ps.filter (!·.wellPlaced))
    ((s.added s').filter (·.problem.ofJump))

section States

variable {ps qs : List Point} {q : Point} {s s1 s' : State}

theorem Judged.trans (h : Judged ps s s1) (h' : Judged qs s1 s') (hle : s.Le s1)
    (hle' : s1.Le s') : Judged (ps ++ qs) s s' where
  size_le := Nat.le_trans h.size_le h'.size_le
  blamed := by
    rw [State.added_trans hle hle', List.filter_append, List.filter_append]
    exact List.rel_append h.blamed h'.blamed

theorem judged_nil (hsize : s.scopes.blocks.size ≤ s'.scopes.blocks.size) (h : s.JumpFree s') :
    Judged [] s s' where
  size_le := hsize
  blamed := by
    have hnone : (s.added s').filter (·.problem.ofJump) = [] :=
      List.filter_eq_nil_iff.mpr fun d hd => Bool.eq_false_iff.mp (h d hd)
    rw [hnone]
    exact .nil

theorem Judged.cons (h : Judged ps s s') (hq : q.wellPlaced = true) : Judged (q :: ps) s s' where
  size_le := h.size_le
  blamed := by
    rw [List.filter_cons_of_neg (by simp [hq])]
    exact h.blamed

theorem judged_misplaced {d : Diagnostic} (hq : q.wellPlaced = false) (hd : q.Blamed d)
    (hscopes : s'.scopes = s.scopes) (hdiags : s'.diags = s.diags.push d) : Judged [q] s s' where
  size_le := Nat.le_of_eq (by rw [hscopes])
  blamed := by
    have hadded : s.added s' = [d] := by simp [State.added, hdiags, ← Array.length_toList]
    have hpoint : [q].filter (!·.wellPlaced) = [q] := List.filter_cons_of_pos (by simp [hq])
    have hjump : [d].filter (·.problem.ofJump) = [d] := List.filter_cons_of_pos hd.ofJump
    rw [hadded, hpoint, hjump]
    exact .cons hd .nil

end States

def Judges (p : Package) (o : Options) (n : Nat) (c : Context) (ps : List Point) (s : State)
    (x : Check α) : Prop :=
  Leads .any (envAt p o n c) s x fun _ s' => Judged ps s s'

section Rules

variable {p : Package} {o : Options} {n : Nat} {c : Context} {ps qs : List Point} {q : Point}
  {s : State}

theorem Judges.moving {x : Check α} {R : α → Prop} (hx : (moving p o True True False).Obeys x R) :
    Judges p o n c [] s x :=
  (hx n c s trivial).mono fun _ _ h =>
    judged_nil h.1.grows.size_le fun d hd => (h.1.raises d hd).resolve_right not_false

theorem Judges.bind {x : Check α} {f : α → Check β} (hx : Judges p o n c ps s x)
    (hf : ∀ a s1, s.scopes.blocks.size ≤ s1.scopes.blocks.size → Judges p o n c qs s1 (f a)) :
    Judges p o n c (ps ++ qs) s (x >>= f) := by
  refine Leads.bind hx fun a s1 hrun h => ?_
  intro b s' hrun' htrue
  exact h.trans (hf a s1 h.size_le hrun' htrue) (Step.le _ hrun) (Step.le _ hrun')

theorem Judges.after {x : Check α} {f : α → Check β} {R : α → Prop}
    (hx : (Check.moving p o True True False).Obeys x R)
    (hf : ∀ a s1, s.scopes.blocks.size ≤ s1.scopes.blocks.size → Judges p o n c qs s1 (f a)) :
    Judges p o n c qs s (x >>= f) :=
  .bind (.moving hx) hf

theorem Judges.cons {x : Check α} (hx : Judges p o n c ps s x) (hq : q.wellPlaced = true) :
    Judges p o n c (q :: ps) s x :=
  Leads.mono hx fun _ _ h => h.cons hq

theorem Judges.inContext {f : Excursion} {x : Check α} (hx : Judges p o n (f c) ps s x) :
    Judges p o n c ps s (inContext f x) := Leads.inContext hx

/-- A block that is opened is none of the old ones. -/
theorem Judges.withBlock {x : BlockId → Check α} {isUnsafe : Bool}
    (hx : ∀ b s1, s.scopes.blocks.size ≤ b → b < s1.scopes.blocks.size →
      Judges p o n { c with block := some b, index := 0 } ps s1 (x b)) :
    Judges p o n c ps s (withBlock isUnsafe x) := by
  refine Leads.context (.state ?_)
  refine .bind
    (M := fun _ s' => s' = { s with scopes := (s.scopes.enter c.block c.index isUnsafe).2 })
    (leads_update rfl) ?_
  rintro _ s1 hrun1 rfl
  have hopened : Judged [] s { s with scopes := (s.scopes.enter c.block c.index isUnsafe).2 } :=
    judged_nil (by simp [Scopes.enter]) (State.raises_of_diags rfl)
  refine .bind (.inContext (hx _ _ (Nat.le_refl _) (by simp [Scopes.enter])))
    fun a s2 hrun2 hinner => ?_
  refine .bind (Judges.moving (keeps_reportUnused _)) fun _ s3 hrun3 hclosed => .pure ?_
  have hall := (hopened.trans hinner (Step.le _ hrun1) (Step.le _ hrun2)).trans hclosed
    ((Step.le _ hrun1).trans (Step.le _ hrun2)) (Step.le _ hrun3)
  simpa using hall

theorem judges_pure (hq : q.wellPlaced = true) : Judges p o n c [q] s (pure ()) :=
  .cons (.moving (.pure (M := fun _ => True) trivial)) hq

theorem judges_report {problem : Problem} {span : Span} (hq : q.wellPlaced = false)
    (hd : q.Blamed ⟨problem, span⟩) : Judges p o n c [q] s (report problem span) :=
  leads_update (judged_misplaced hq hd rfl rfl)

end Rules

/-! ## The context and the frames -/

/-- The statements that may be left are those of the frames, and the block of the case is open. -/
structure Around (fs : List Frame) (c : Context) (s : State) : Prop where
  breakables : c.func.breakables = fs.filterMap Frame.breakable?
  opened : ∀ case ∈ c.func.case, case.block < s.scopes.blocks.size

/-- In the block of a case its `size` and what follows it are known; another block is not taken
for that of a case. -/
def KnowsCase (c : Context) (size : Nat) : List Frame → Prop
  | .select _ later :: _ => ∃ b, c.block = some b ∧ c.func.case = some ⟨b, size, later.isEmpty⟩
  | _ => ∀ case ∈ c.func.case, c.block ≠ some case.block

/-- A list of `size` statements is directly inside of the frames. -/
structure Inside (fs : List Frame) (size : Nat) (c : Context) (s : State) : Prop
    extends Around fs c s where
  inCase : KnowsCase c size fs

section Contexts

variable {fs : List Frame} {c : Context} {s s1 : State} {size : Nat} {b : BlockId}

theorem Around.mono (h : Around fs c s) (hsize : s.scopes.blocks.size ≤ s1.scopes.blocks.size) :
    Around fs c s1 :=
  ⟨h.breakables, fun case hcase => Nat.lt_of_lt_of_le (h.opened case hcase) hsize⟩

theorem Inside.mono (h : Inside fs size c s)
    (hsize : s.scopes.blocks.size ≤ s1.scopes.blocks.size) : Inside fs size c s1 :=
  ⟨h.toAround.mono hsize, h.inCase⟩

theorem Around.rest (h : Around fs c s) (rest : List Stmt) : Around (.rest rest :: fs) c s :=
  ⟨h.breakables, h.opened⟩

theorem Around.breakable {f : Frame} {breakable : Breakable} (h : Around fs c s)
    (hf : f.breakable? = some breakable) :
    Around (f :: fs)
      { c with func := { c.func with breakables := breakable :: c.func.breakables } } s where
  breakables := by rw [List.filterMap_cons_some hf, ← h.breakables]
  opened := h.opened

theorem Around.enter (h : Around fs c s) (hb : s.scopes.blocks.size ≤ b)
    (hb' : b < s1.scopes.blocks.size) (hfs : ∀ l later fs', fs ≠ .select l later :: fs') :
    Inside fs size { c with block := some b, index := 0 } s1 where
  breakables := h.breakables
  opened := (h.mono (Nat.le_trans hb (Nat.le_of_lt hb'))).opened
  inCase := by
    have hfresh : ∀ case ∈ c.func.case, some b ≠ some case.block := by
      rintro case hcase ⟨⟩
      exact absurd (h.opened case hcase) (Nat.not_lt.mpr hb)
    unfold KnowsCase
    split
    · exact absurd rfl (hfs _ _ _)
    · exact hfresh

theorem Around.enterCase {l : Option String} {later : List (List Stmt)} {isFinal : Bool}
    (h : Around (.select l later :: fs) c s) (size : Nat) (hb : b < s1.scopes.blocks.size)
    (hfinal : later.isEmpty = isFinal) :
    Inside (.select l later :: fs) size { c with
      block := some b, index := 0, func := { c.func with case := some ⟨b, size, isFinal⟩ } } s1 where
  breakables := h.breakables
  opened case hcase := by
    cases hcase
    exact hb
  inCase := ⟨b, rfl, by rw [hfinal]⟩

end Contexts

/-! ## Jumps -/

section Jumps

variable {p : Package} {o : Options} {n : Nat} {c : Context} {s : State} {fs : List Frame}
  {l : Option String} {span : Span} {rest : List Stmt}

theorem judges_checkJump {label : Option Ident} {loopsOnly : Bool} {outside : Problem} {q : Point}
    (h : Around fs c s)
    (hnone : label = none → q.Blamed ⟨outside, span⟩ ∧
      q.wellPlaced = fs.any fun f => if loopsOnly then f.isLoop else f.takesBreak none)
    (hsome : ∀ name, label = some name → q.Blamed ⟨.invalidLabel, name.span⟩ ∧
      q.Blamed ⟨.unknownLabel name.name, name.span⟩ ∧
      q.wellPlaced = (fs.find? (·.takesBreak (some name.name))).any fun f => !loopsOnly || f.isLoop) :
    Judges p o n c [q] s (checkJump label loopsOnly outside span) := by
  refine Leads.context ?_
  rw [show (envAt p o n c).context.func.breakables = _ from h.breakables]
  dsimp only
  cases label with
  | none =>
    obtain ⟨hblamed, hwell⟩ := hnone rfl
    rw [any_breakables, ← hwell]
    cases hq : q.wellPlaced with
    | true => exact judges_pure hq
    | false => exact judges_report hq hblamed
  | some name =>
    obtain ⟨hinvalid, hunknown, hwell⟩ := hsome name rfl
    refine Judges.after (R := fun _ => True) (.state fun _ s _ => .pure trivial) fun found s1 _ => ?_
    refine Judges.after (keeps_useLabel _) fun _ s2 _ => ?_
    rw [find_breakables]
    cases hfound : fs.find? (·.takesBreak (some name.name)) with
    | none =>
      rw [hfound] at hwell
      refine judges_report hwell ?_
      split
      · exact hinvalid
      · exact hunknown
    | some f =>
      rw [hfound] at hwell
      obtain ⟨b, hb, hloop⟩ := exists_breakable (List.find?_some hfound)
      rw [Option.bind_some, hb]
      have hvalid : (!loopsOnly || b.isLoop) = q.wellPlaced := by
        rw [hloop]
        exact hwell.symm
      dsimp only
      cases hq : q.wellPlaced with
      | true =>
        rw [if_neg (by rw [hvalid, hq]; decide)]
        exact judges_pure hq
      | false =>
        rw [if_pos (by rw [hvalid, hq]; decide)]
        exact judges_report hq hinvalid

theorem judges_checkBreak (label : Option Ident) (h : Around fs c s) :
    Judges p o n c [⟨l, .leave label span :: rest, fs⟩] s (checkBreak label span) := by
  refine judges_checkJump h ?_ ?_
  · rintro rfl
    exact ⟨rfl, rfl⟩
  · rintro name rfl
    refine ⟨.inl rfl, .inr rfl, ?_⟩
    show fs.any (·.takesBreak (some name.name)) = _
    rw [← List.isSome_find?]
    cases fs.find? (·.takesBreak (some name.name)) <;> rfl

theorem judges_checkContinue (label : Option Ident) (h : Around fs c s) :
    Judges p o n c [⟨l, .again label span :: rest, fs⟩] s (checkContinue label span) := by
  refine judges_checkJump h ?_ ?_
  · rintro rfl
    exact ⟨rfl, rfl⟩
  · rintro name rfl
    exact ⟨.inl rfl, .inr rfl, rfl⟩

theorem judges_checkFallthrough (h : Inside fs (c.index + 1 + rest.length) c s) :
    Judges p o n c [⟨l, .fallthrough span :: rest, fs⟩] s (checkFallthrough span) := by
  refine Leads.context ?_
  have hknows : KnowsCase c (c.index + 1 + rest.length) fs := h.inCase
  unfold KnowsCase at hknows
  split at hknows
  next l' later fs' =>
    obtain ⟨b, hblock, hcase⟩ := hknows
    rw [show (envAt p o n c).context.func.case = _ from hcase,
      show (envAt p o n c).context.block = _ from hblock]
    dsimp only
    split
    next hends =>
      obtain rfl : rest = [] := by
        obtain ⟨-, hsize⟩ := Bool.and_eq_true_iff.mp hends
        replace hsize : c.index + 1 = c.index + 1 + rest.length := beq_iff_eq.mp hsize
        exact List.length_eq_zero_iff.mp (by omega)
      cases later with
      | nil => exact judges_report rfl rfl
      | cons _ _ => exact judges_pure rfl
    next hends =>
      obtain ⟨x, xs, rfl⟩ : ∃ x xs, rest = x :: xs := List.exists_cons_of_ne_nil fun hnil =>
        hends (by simp [hnil, envAt])
      exact judges_report rfl rfl
  next hfs =>
    have hwell : Point.wellPlaced ⟨l, .fallthrough span :: rest, fs⟩ = false := by
      refine Bool.and_eq_false_iff.mpr (.inr ?_)
      split
      next heq => exact (hfs _ _ _ heq).elim
      · rfl
    have hblamed : Point.Blamed ⟨l, .fallthrough span :: rest, fs⟩ ⟨.fallthroughMisplaced, span⟩ := by
      unfold Point.Blamed
      dsimp only
      split
      · exact (hfs _ _ _ rfl).elim
      · rfl
    split
    next case hcase =>
      rw [if_neg]
      · exact judges_report hwell hblamed
      · have hblock : c.block ≠ some case.block := hknows case hcase
        simp [envAt, hblock]
    next => exact judges_report hwell hblamed

end Jumps

/-! ## Statements -/

section Statements

variable {p : Package} {o : Options} {n : Nat}

mutual

theorem judges_checkFrom {c : Context} {s : State} {fs : List Frame} (stmts : List Stmt) (i : Nat)
    (label : Option String) (h : Inside fs (i + stmts.length) c s) :
    Judges p o n c (pointsFrom fs stmts label) s (checkFrom stmts i label) := by
  match stmts with
  | [] =>
    exact .moving (.pure (M := fun _ => True) trivial)
  | x :: rest =>
    have hsize : i + (x :: rest).length = i + 1 + rest.length := by simp; omega
    rw [hsize] at h
    have hx : Inside fs (i + 1 + rest.length) { c with index := i } s :=
      ⟨⟨h.breakables, h.opened⟩, h.inCase⟩
    exact .bind (.inContext (judges_checkStmt x label rest hx)) fun _ s1 hle =>
      judges_checkFrom rest (i + 1) _ (h.mono hle)

theorem judges_checkStmt {c : Context} {s : State} {fs : List Frame} (stmt : Stmt)
    (label : Option String) (rest : List Stmt) (h : Inside fs (c.index + 1 + rest.length) c s) :
    Judges p o n c (⟨label, stmt :: rest, fs⟩ :: pointsIn (.rest rest :: fs) stmt label) s
      (checkStmt stmt label) := by
  have hrest : Around (.rest rest :: fs) c s := h.toAround.rest rest
  match stmt with
  | .declare name mutable constant type value span =>
    exact .cons (.moving (records_checkDeclare trivial (within_moving _)).keeps) rfl
  | .declareMany names values span =>
    exact .cons (.moving (records_checkDeclareMany trivial (within_moving _)).keeps) rfl
  | .assign .. | .step .. | .expr _ | .ret .. =>
    exact .cons (.moving (moving_of_asks fun _ => asks_checkStmt rfl label)) rfl
  | .branch branches none span =>
    exact .cons (judges_checkBranches branches rest hrest) rfl
  | .branch branches (some ⟨stmts, isUnsafe, bspan⟩) span =>
    refine .cons (.bind (judges_checkBranches branches rest hrest) fun _ s1 hle => ?_) rfl
    exact .withBlock fun b s2 hb hb' =>
      judges_checkFrom stmts 0 none ((hrest.mono hle).enter hb hb' nofun)
  | .loop kind ⟨stmts, isUnsafe, bspan⟩ span =>
    refine .cons (.after (moving_of_asks fun _ => asks_loopVars_any kind) fun vars s1 hle => ?_) rfl
    have hloop := (hrest.mono hle).breakable (f := .loop label kind stmts) rfl
    refine .inContext (.withBlock fun b s2 hb hb' => ?_)
    refine .after (.listForM fun _ _ => keeps_declare trivial ⟨covers_lax _, trivial⟩) fun _ s3 hle' => ?_
    exact judges_checkFrom stmts 0 none ((hloop.enter hb hb' nofun).mono hle')
  | .select subject cases none span =>
    refine .cons (.after (moving_of_asks fun _ => asks_subject fun _ _ => trivial) fun value s1 hle => ?_) rfl
    have hmatch := (hrest.mono hle).breakable (f := .select label []) rfl
    exact .inContext (judges_checkCases _ _ false cases label [] rfl hmatch)
  | .select subject cases (some ⟨exprs, ⟨stmts, isUnsafe, bspan⟩, cspan⟩) span =>
    refine .cons (.after (moving_of_asks fun _ => asks_subject fun _ _ => trivial) fun value s1 hle => ?_) rfl
    have hmatch := (hrest.mono hle).breakable (f := .select label []) rfl
    refine .inContext (.bind (judges_checkCases _ _ true cases label [stmts] rfl hmatch)
      fun _ s2 hle2 => ?_)
    refine .after (moving_of_asks fun _ => asks_checkCaseExprs _ (fun _ _ => covers_lax _) fun _ _ => trivial) fun _ s3 hle3 => ?_
    refine .withBlock fun b s4 hb hb' => .inContext ?_
    have hinside := ((hmatch.mono hle2).mono hle3).enterCase stmts.length hb' rfl
    exact judges_checkFrom stmts 0 none (Nat.zero_add _ ▸ hinside)
  | .leave target span =>
    exact judges_checkBreak target h.toAround
  | .again target span =>
    exact judges_checkContinue target h.toAround
  | .goto target span =>
    exact .cons (.moving (keeps_checkGoto trivial _ trivial)) rfl
  | .label name span =>
    exact .cons (.moving (keeps_checkLabel trivial _ trivial)) rfl
  | .fallthrough span =>
    exact judges_checkFallthrough h
  | .block ⟨stmts, isUnsafe, bspan⟩ =>
    unfold checkStmt
    refine .cons (.withBlock fun b s1 hb hb' => ?_) rfl
    exact judges_checkFrom stmts 0 none (hrest.enter hb hb' nofun)
  | .typeAlias a =>
    exact .cons (.moving (keeps_checkLocalAlias ⟨trivial, a.target.within_of_forall fun _ => trivial⟩)) rfl

theorem judges_checkBranches {c : Context} {s : State} {fs : List Frame}
    (branches : List (Branch Stmt)) (rest : List Stmt) (h : Around (.rest rest :: fs) c s) :
    Judges p o n c (pointsInBranches (.rest rest :: fs) branches) s (checkBranches branches) := by
  match branches with
  | [] =>
    exact .moving (.pure (M := fun _ => True) trivial)
  | ⟨cond, ⟨stmts, isUnsafe, bspan⟩⟩ :: branches =>
    refine .after (moving_of_asks fun _ => asks_checkCondition rfl trivial) fun _ s1 hle => ?_
    refine .bind (.withBlock fun b s2 hb hb' => ?_) fun _ s3 hle' => ?_
    · exact judges_checkFrom stmts 0 none ((h.mono hle).enter hb hb' nofun)
    · exact judges_checkBranches branches rest ((h.mono hle).mono hle')

theorem judges_checkCases {c : Context} {s : State} {fs : List Frame} (hasSubject : Bool)
    (subject : Option Value) (hasDefault : Bool) (cases : List (Case Stmt)) (label : Option String)
    (last : List (List Stmt)) (hlast : last.isEmpty = !hasDefault)
    (h : Around (.select label [] :: fs) c s) :
    Judges p o n c (pointsInCases fs label last cases) s
      (checkCases hasSubject subject hasDefault cases) := by
  match cases with
  | [] =>
    exact .moving (.pure (M := fun _ => True) trivial)
  | ⟨exprs, ⟨stmts, isUnsafe, bspan⟩, cspan⟩ :: cases =>
    have hcase : Around (.select label (cases.map (·.body.stmts) ++ last) :: fs) c s :=
      ⟨h.breakables, h.opened⟩
    have hfinal : (cases.map (·.body.stmts) ++ last).isEmpty = (cases.isEmpty && !hasDefault) := by
      cases cases with
      | nil => simpa using hlast
      | cons _ _ => rfl
    refine .after (moving_of_asks fun _ => asks_checkCaseExprs _ (fun _ _ => covers_lax _) fun _ _ => trivial) fun _ s1 hle => ?_
    refine .bind (.withBlock fun b s2 hb hb' => .inContext ?_) fun _ s3 hle' => ?_
    · have hinside := (hcase.mono hle).enterCase stmts.length hb' hfinal
      exact judges_checkFrom stmts 0 none (Nat.zero_add _ ▸ hinside)
    · exact judges_checkCases hasSubject subject hasDefault cases label last hlast
        ((h.mono hle).mono hle')

end

end Statements

/-- Where a body is checked outside of any loop, match and case, each misplaced jump gets one
diagnostic, in the order of the text, and no other jump gets one. -/
theorem jumps_blamed {p : Package} {o : Options} {n : Nat} {c : Context} {s s' : State}
    {body : List Stmt} (hbreakables : c.func.breakables = []) (hcase : c.func.case = none)
    (h : run p o n c (checkStmts body) s = some ((), s')) :
    List.Forall₂ Point.Blamed ((points body).filter (!·.wellPlaced))
      ((s.added s').filter (·.problem.ofJump)) := by
  have hinside : Inside [] (0 + body.length) c s := by
    refine ⟨⟨hbreakables, ?_⟩, ?_⟩
    · rw [hcase]
      nofun
    · unfold KnowsCase
      rw [hcase]
      nofun
  exact (judges_checkFrom body 0 none hinside h trivial).blamed

/-- A loop with a label, with a match in it. The `break` before the loop and the `continue` after
it are misplaced, and so are the second `fallthrough`, which is in a block of its own, and the
third, which is in the last case. -/
def strayJumps : List Stmt :=
  let outer (k : Nat) : Ident := ⟨"outer", ⟨k, k + 1, 0⟩⟩
  let block (stmts : List Stmt) : Syntax.Block Stmt := ⟨stmts, false, default⟩
  [.leave none ⟨0, 1, 0⟩,
    .label (outer 1) default,
    .loop .forever (block [
      .select none [⟨[], block [.fallthrough ⟨2, 3, 0⟩], default⟩,
          ⟨[], block [.again (some (outer 3)) default, .block (block [.fallthrough ⟨4, 5, 0⟩])],
            default⟩]
        (some ⟨[], block [.leave none ⟨5, 6, 0⟩, .fallthrough ⟨6, 7, 0⟩], default⟩) default,
      .leave (some (outer 7)) default]) default,
    .again (some (outer 8)) default]

/-- What is reported of the four. -/
def strayBlames : List Diagnostic :=
  [⟨.breakOutside, ⟨0, 1, 0⟩⟩, ⟨.fallthroughMisplaced, ⟨4, 5, 0⟩⟩,
    ⟨.fallthroughInLastCase, ⟨6, 7, 0⟩⟩, ⟨.invalidLabel, ⟨8, 9, 0⟩⟩]

theorem jumps_blamed_strayJumps : ∃ s',
    run .empty {} 3 { block := some 0 } (checkStmts strayJumps) freshBody = some ((), s') ∧
    (freshBody.added s').filter (·.problem.ofJump) = strayBlames ∧
    List.Forall₂ Point.Blamed ((points strayJumps).filter (!·.wellPlaced)) strayBlames := by
  have heval : ((run .empty {} 3 { block := some 0 } (checkStmts strayJumps) freshBody).any
      fun r => (freshBody.added r.2).filter (·.problem.ofJump) = strayBlames) = true := by
    decide +kernel
  obtain ⟨⟨_, s'⟩, hrun, hdiags⟩ := (Option.any_eq_true _ _).mp heval
  replace hdiags : (freshBody.added s').filter (·.problem.ofJump) = strayBlames :=
    of_decide_eq_true hdiags
  exact ⟨s', hrun, hdiags, hdiags ▸ jumps_blamed rfl rfl hrun⟩

end Check

end JaneCheck
