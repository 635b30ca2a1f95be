import JaneCheck.Proofs.Execution

/-!
# Placement of jumps

Where in a body `break`, `continue` and `fallthrough` may stand, said of the
points of the body by the frames around them. `points` lists the points that
have a statement to go, in the order of the text; they are the places of the
body (`mem_points_iff`).
-/

namespace JaneCheck.Flow

open Check (labelName?)
open Syntax (Branch Case LoopKind Stmt)

def Frame.isLoop : Frame → Bool
  | .loop .. => true
  | .rest _ | .select .. => false

/-- The first statement of the point is no jump or may stand there. A `break`
needs a loop or match around it and a `continue` a loop. With a label they go to
the innermost loop or match that has it, which for `continue` has to be a loop.
A `fallthrough` ends a case that another one follows. -/
def Point.wellPlaced (p : Point) : Bool :=
  match p.stmts with
  | .leave label _ :: _ => p.frames.any (·.takesBreak (label.map (·.name)))
  | .again none _ :: _ => p.frames.any (·.isLoop)
  | .again (some label) _ :: _ => (p.frames.find? (·.takesBreak (some label.name))).any (·.isLoop)
  | .fallthrough _ :: after => after.isEmpty && match p.frames with
    | .select _ later :: _ => !later.isEmpty
    | _ => false
  | _ => true

/-! ## The points of a body -/

mutual

/-- The points of some statements inside the frames; `label` stands before the first. -/
def pointsFrom (fs : List Frame) : List Stmt → Option String → List Point
  | [], _ => []
  | s :: rest, label =>
    ⟨label, s :: rest, fs⟩ :: (pointsIn (.rest rest :: fs) s label ++
      pointsFrom fs rest (labelName? s))

/-- The points in the blocks of a statement. -/
def pointsIn (fs : List Frame) : Stmt → Option String → List Point
  | .branch branches none _, _ => pointsInBranches fs branches
  | .branch branches (some ⟨stmts, _, _⟩) _, _ =>
    pointsInBranches fs branches ++ pointsFrom fs stmts none
  | .loop kind ⟨stmts, _, _⟩ _, label => pointsFrom (.loop label kind stmts :: fs) stmts none
  | .select _ cases none _, label => pointsInCases fs label [] cases
  | .select _ cases (some ⟨_, ⟨stmts, _, _⟩, _⟩) _, label =>
    pointsInCases fs label [stmts] cases ++ pointsFrom (.select label [] :: fs) stmts none
  | .block ⟨stmts, _, _⟩, _ => pointsFrom fs stmts none
  | _, _ => []

def pointsInBranches (fs : List Frame) : List (Branch Stmt) → List Point
  | [] => []
  | ⟨_, ⟨stmts, _, _⟩⟩ :: rest => pointsFrom fs stmts none ++ pointsInBranches fs rest

/-- The points in the cases of a match that the bodies in `last` follow. -/
def pointsInCases (fs : List Frame) (label : Option String) (last : List (List Stmt)) :
    List (Case Stmt) → List Point
  | [] => []
  | ⟨_, ⟨stmts, _, _⟩, _⟩ :: rest =>
    pointsFrom (.select label (rest.map (·.body.stmts) ++ last) :: fs) stmts none ++
      pointsInCases fs label last rest

end

/-- The points of a body that have a statement to go. -/
def points (body : List Stmt) : List Point := pointsFrom [] body none

/-! ## Points and places -/

section Points

variable {q : Point} {fs : List Frame} {l : Option String}

theorem mem_pointsInBranches {branches : List (Branch Stmt)} :
    q ∈ pointsInBranches fs branches ↔ ∃ b ∈ branches, q ∈ pointsFrom fs b.body.stmts none := by
  induction branches with
  | nil => simp [pointsInBranches]
  | cons b branches ih =>
    rw [pointsInBranches, List.mem_append, ih]
    simp

theorem mem_pointsInCases {last : List (List Stmt)} {cases : List (Case Stmt)} :
    q ∈ pointsInCases fs l last cases ↔ ∃ before body later,
      cases.map (·.body.stmts) = before ++ body :: later ∧
      q ∈ pointsFrom (.select l (later ++ last) :: fs) body none := by
  induction cases with
  | nil => simp [pointsInCases]
  | cons case cases ih =>
    rw [pointsInCases, List.mem_append, ih]
    constructor
    · rintro (h | ⟨before, body, later, he, h⟩)
      · exact ⟨[], _, _, rfl, h⟩
      · exact ⟨case.body.stmts :: before, body, later, by simp [he], h⟩
    · rintro ⟨before, body, later, he, h⟩
      cases before with
      | nil =>
        cases he
        exact .inl h
      | cons first before => exact .inr ⟨before, body, later, (List.cons.inj he).2, h⟩

/-- The points in the cases and then in the default are those in the bodies. -/
theorem mem_pointsInCases_default {cases : List (Case Stmt)} {d : Case Stmt} :
    q ∈ pointsInCases fs l [d.body.stmts] cases ++
        pointsFrom (.select l [] :: fs) d.body.stmts none ↔
      ∃ before body later, caseBodies cases (some d) = before ++ body :: later ∧
        q ∈ pointsFrom (.select l later :: fs) body none := by
  have hbodies : caseBodies cases (some d) = cases.map (·.body.stmts) ++ [d.body.stmts] := by
    simp [caseBodies]
  rw [List.mem_append, mem_pointsInCases, hbodies]
  constructor
  · rintro (⟨before, body, later, he, h⟩ | h)
    · exact ⟨before, body, later ++ [d.body.stmts], by simp [he], h⟩
    · exact ⟨_, _, [], rfl, h⟩
  · rintro ⟨before, body, later, he, h⟩
    rcases List.eq_nil_or_concat later with rfl | ⟨later, last, rfl⟩
    · obtain ⟨-, hlast⟩ := List.append_inj' he rfl
      cases hlast
      exact .inr h
    · rw [List.concat_eq_append, ← List.cons_append, ← List.append_assoc] at he
      obtain ⟨hcases, hlast⟩ := List.append_inj' he rfl
      cases hlast
      exact .inl ⟨before, body, later, hcases, by simpa using h⟩

/-- The points in the blocks of a statement are those that control may enter. -/
theorem mem_pointsIn_iff {s : Stmt} {ss : List Stmt} :
    q ∈ pointsIn (.rest ss :: fs) s l ↔
      ∃ r, Enters ⟨l, s :: ss, fs⟩ r ∧ q ∈ pointsFrom r.frames r.stmts r.label := by
  constructor
  · intro h
    cases s with
    | branch branches e span =>
      cases e with
      | none =>
        obtain ⟨b, hb, h⟩ := mem_pointsInBranches.mp h
        exact ⟨_, .branch hb, h⟩
      | some e =>
        rcases List.mem_append.mp h with h | h
        · obtain ⟨b, hb, h⟩ := mem_pointsInBranches.mp h
          exact ⟨_, .branch hb, h⟩
        · exact ⟨_, .otherwise, h⟩
    | loop kind b span => exact ⟨_, .loop, h⟩
    | select x cases e span =>
      cases e with
      | none =>
        obtain ⟨before, body, later, he, h⟩ := mem_pointsInCases.mp h
        exact ⟨_, .case (by simpa [caseBodies] using he), by simpa using h⟩
      | some e =>
        obtain ⟨before, body, later, he, h⟩ := mem_pointsInCases_default.mp h
        exact ⟨_, .case he, h⟩
    | block b => exact ⟨_, .block, h⟩
    | _ => cases h
  · rintro ⟨r, he, h⟩
    cases he with
    | block => exact h
    | @branch _ branches e span _ _ b hb =>
      have hmem := mem_pointsInBranches.mpr ⟨b, hb, h⟩
      cases e with
      | none => exact hmem
      | some e => exact List.mem_append_left _ hmem
    | otherwise => exact List.mem_append_right _ h
    | loop => exact h
    | @case _ x cases e span _ _ before body later he =>
      cases e with
      | none =>
        exact mem_pointsInCases.mpr ⟨before, body, later, by simpa [caseBodies] using he, by simpa using h⟩
      | some e => exact mem_pointsInCases_default.mpr ⟨before, body, later, he, h⟩

end Points

/-- The text goes on from a point behind its first statement or in a block of it. -/
inductive Onward : Point → Point → Prop
  | next {l s ss fs} : Onward ⟨l, s :: ss, fs⟩ ⟨labelName? s, ss, fs⟩
  | enter {p q} (h : Enters p q) : Onward p q

variable {p q : Point} {body : List Stmt}

theorem Onward.place (h : Onward p q) (hp : Place body p) : Place body q := by
  cases h with
  | next => exact .next hp
  | enter h => exact .enter hp h

theorem sizeOf_lt_of_enters (h : Enters p q) : sizeOf q.stmts < sizeOf p.stmts := by
  have hblock (b : Syntax.Body) : sizeOf b.stmts < sizeOf b := by
    cases b
    simp only [Syntax.Block.mk.sizeOf_spec]
    omega
  cases h with
  | @block l b =>
    have := hblock b
    simp only [List.cons.sizeOf_spec, Stmt.block.sizeOf_spec]
    omega
  | @branch l branches e span ss fs b hb =>
    have hmem := List.sizeOf_lt_of_mem hb
    have hbody := hblock b.body
    have hb : sizeOf b.body < sizeOf b := by
      cases b
      simp only [Branch.mk.sizeOf_spec]
      omega
    simp only [List.cons.sizeOf_spec, Stmt.branch.sizeOf_spec]
    omega
  | @otherwise l branches b =>
    have := hblock b
    simp only [List.cons.sizeOf_spec, Stmt.branch.sizeOf_spec, Option.some.sizeOf_spec]
    omega
  | @loop l kind b =>
    have := hblock b
    simp only [List.cons.sizeOf_spec, Stmt.loop.sizeOf_spec]
    omega
  | @case l x cases e span ss fs before body later hbodies =>
    have hmem : body ∈ caseBodies cases e := by simp [hbodies]
    obtain ⟨case, hcase, rfl⟩ := List.mem_map.mp hmem
    have hbody := hblock case.body
    have hcase' : sizeOf case.body < sizeOf case := by
      cases case
      simp only [Case.mk.sizeOf_spec]
      omega
    have hlt : sizeOf case < sizeOf cases + sizeOf e := by
      rcases List.mem_append.mp hcase with hcase | hcase
      · exact Nat.lt_add_right _ (List.sizeOf_lt_of_mem hcase)
      · rw [Option.mem_toList.mp hcase, Option.some.sizeOf_spec]
        omega
    simp only [List.cons.sizeOf_spec, Stmt.select.sizeOf_spec]
    omega

theorem Onward.sizeOf_lt (h : Onward p q) : sizeOf q.stmts < sizeOf p.stmts := by
  cases h with
  | next =>
    simp only [List.cons.sizeOf_spec]
    omega
  | enter h => exact sizeOf_lt_of_enters h

namespace Point

/-- The points from a point on. -/
def points (p : Point) : List Point := pointsFrom p.frames p.stmts p.label

theorem mem_points_iff : q ∈ p.points ↔ q = p ∧ p.stmts ≠ [] ∨ ∃ r, Onward p r ∧ q ∈ r.points := by
  obtain ⟨l, ss, fs⟩ := p
  cases ss with
  | nil =>
    refine ⟨fun h => (List.not_mem_nil h).elim, ?_⟩
    rintro (⟨-, h⟩ | ⟨r, hr, -⟩)
    · exact (h rfl).elim
    · cases hr with
      | enter hr => cases hr
  | cons s ss =>
    show q ∈ _ :: (_ ++ _) ↔ _
    rw [List.mem_cons, List.mem_append, mem_pointsIn_iff]
    constructor
    · rintro (rfl | ⟨r, hr, h⟩ | h)
      · exact .inl ⟨rfl, List.cons_ne_nil s ss⟩
      · exact .inr ⟨r, .enter hr, h⟩
      · exact .inr ⟨_, .next, h⟩
    · rintro (⟨rfl, -⟩ | ⟨r, hr, h⟩)
      · exact .inl rfl
      · cases hr with
        | next => exact .inr (.inr h)
        | enter hr => exact .inr (.inl ⟨r, hr, h⟩)

theorem self_mem_points (h : p.stmts ≠ []) : p ∈ p.points :=
  mem_points_iff.mpr (.inl ⟨rfl, h⟩)

theorem mem_points_of_onward {p q r : Point} (hq : q ∈ p.points) (hr : Onward q r)
    (hstmts : r.stmts ≠ []) : r ∈ p.points := by
  rcases mem_points_iff.mp hq with ⟨rfl, -⟩ | ⟨p', hp', hq'⟩
  · exact mem_points_iff.mpr (.inr ⟨r, hr, self_mem_points hstmts⟩)
  · have := hp'.sizeOf_lt
    exact mem_points_iff.mpr (.inr ⟨p', hp', mem_points_of_onward hq' hr hstmts⟩)
termination_by sizeOf p.stmts

theorem place_of_mem_points {body : List Stmt} {p q : Point} (hp : Place body p)
    (hq : q ∈ p.points) : Place body q ∧ q.stmts ≠ [] := by
  rcases mem_points_iff.mp hq with ⟨rfl, hstmts⟩ | ⟨p', hp', hq'⟩
  · exact ⟨hp, hstmts⟩
  · have := hp'.sizeOf_lt
    exact place_of_mem_points (hp'.place hp) hq'
termination_by sizeOf p.stmts

end Point

theorem mem_points_iff : p ∈ points body ↔ Place body p ∧ p.stmts ≠ [] := by
  constructor
  · exact Point.place_of_mem_points (p := .start body) .start
  · rintro ⟨hplace, hstmts⟩
    induction hplace with
    | start => exact Point.self_mem_points (p := .start body) hstmts
    | next _ ih =>
      exact Point.mem_points_of_onward (p := .start body) (ih (List.cons_ne_nil _ _)) .next hstmts
    | @enter p q _ he ih =>
      have hp : p.stmts ≠ [] := by cases he <;> exact List.cons_ne_nil _ _
      exact Point.mem_points_of_onward (p := .start body) (ih hp) (.enter he) hstmts

end JaneCheck.Flow
