import JaneCheck.Proofs.Bodies
import Mathlib.Logic.Relation

/-!
# Executions of a body

The control flow of a function body, with all that depends on values left open:
a condition may hold or not, any case of a match may be taken, and a loop with a
head may stop before any round.

A point of an execution has the statements to go and the frames around them.
`Enters` goes into a statement with blocks, `Step` is one step, and `Place` says
which points a body has at all, whether or not they are reached: a `goto` may go
to any label among them. There is no step from a `return`, nor from a jump that
has no target.
-/

namespace JaneCheck.Flow

open Check (labelName?)
open Syntax (Case LoopKind Stmt)

/-- What stands around a list of statements. -/
inductive Frame where
  /-- The statements that follow. -/
  | rest (stmts : List Stmt)
  | loop (label : Option String) (kind : LoopKind) (body : List Stmt)
  /-- A match, with the bodies of the cases after the one that was taken. -/
  | select (label : Option String) (later : List (List Stmt))

/-- A point of an execution, with the label that stands before its first
statement. Frames are listed from the innermost outward. -/
structure Point where
  label : Option String
  stmts : List Stmt
  frames : List Frame

namespace Point

def start (body : List Stmt) : Point := ⟨none, body, []⟩

/-- Nothing is left to do. -/
def AtEnd (p : Point) : Prop := p.stmts = [] ∧ p.frames = []

end Point

/-! ## Targets of jumps -/

namespace Frame

/-- A `break` with the label may leave the frame; without one it may leave any
loop or match. -/
def takesBreak (label : Option String) : Frame → Bool
  | .rest _ => false
  | .loop l _ _ | .select l _ => label.all (l == some ·)

/-- A `continue` with the label may go on with the frame. -/
def takesContinue (label : Option String) : Frame → Bool
  | .loop l _ _ => label.all (l == some ·)
  | _ => false

/-- The innermost frame with a property, and the frames around it. -/
def innermost (f : Frame → Bool) : List Frame → Option (Frame × List Frame)
  | [] => none
  | frame :: frames => if f frame then some (frame, frames) else innermost f frames

end Frame

/-! ## Steps -/

/-- Control may go on behind the statement without entering a block of it or
leaving the list. -/
def passes : Stmt → Bool
  | .declare .. | .declareMany .. | .assign .. | .step .. | .expr _ | .label .. | .typeAlias _ => true
  | .branch _ none _ | .select _ _ none _ => true
  | .loop .forever _ _ => false
  | .loop _ _ _ => true
  | _ => false

/-- The bodies of the cases of a match, the default last. -/
def caseBodies (cases : List (Case Stmt)) (otherwise : Option (Case Stmt)) : List (List Stmt) :=
  (cases ++ otherwise.toList).map (·.body.stmts)

/-- Control goes into a block of the first statement. -/
inductive Enters : Point → Point → Prop
  | block {l b ss fs} : Enters ⟨l, .block b :: ss, fs⟩ ⟨none, b.stmts, .rest ss :: fs⟩
  | branch {l branches e span ss fs b} (h : b ∈ branches) :
      Enters ⟨l, .branch branches e span :: ss, fs⟩ ⟨none, b.body.stmts, .rest ss :: fs⟩
  | otherwise {l branches b span ss fs} :
      Enters ⟨l, .branch branches (some b) span :: ss, fs⟩ ⟨none, b.stmts, .rest ss :: fs⟩
  | loop {l kind b span ss fs} :
      Enters ⟨l, .loop kind b span :: ss, fs⟩ ⟨none, b.stmts, .loop l kind b.stmts :: .rest ss :: fs⟩
  | case {l x cases e span ss fs before body later} (h : caseBodies cases e = before ++ body :: later) :
      Enters ⟨l, .select x cases e span :: ss, fs⟩ ⟨none, body, .select l later :: .rest ss :: fs⟩

/-- Every block of the first statement can be entered. -/
theorem exists_enters {s : Stmt} {stmts : List Stmt} (l : Option String) (ss : List Stmt)
    (fs : List Frame) (h : stmts ∈ s.inner) :
    ∃ l' fs', Enters ⟨l, s :: ss, fs⟩ ⟨l', stmts, fs'⟩ := by
  cases s with
  | branch branches otherwise span =>
    rcases List.mem_append.mp h with h | h
    · obtain ⟨b, hb, rfl⟩ := List.mem_map.mp h
      exact ⟨_, _, .branch hb⟩
    · obtain ⟨b, hb, rfl⟩ := List.mem_map.mp h
      obtain rfl := Option.mem_toList.mp hb
      exact ⟨_, _, .otherwise⟩
  | loop kind body span =>
    obtain rfl := List.mem_singleton.mp h
    exact ⟨_, _, .loop⟩
  | select subject cases otherwise span =>
    rw [Stmt.inner, ← List.map_append] at h
    obtain ⟨before, later, hsplit⟩ := List.append_of_mem h
    exact ⟨_, _, .case hsplit⟩
  | block body =>
    obtain rfl := List.mem_singleton.mp h
    exact ⟨_, _, .block⟩
  | _ => cases h

/-- The points of a body. -/
inductive Place (body : List Stmt) : Point → Prop
  | start : Place body (.start body)
  | next {l s ss fs} (h : Place body ⟨l, s :: ss, fs⟩) : Place body ⟨labelName? s, ss, fs⟩
  | enter {p q} (h : Place body p) (he : Enters p q) : Place body q

inductive Step (body : List Stmt) : Point → Point → Prop
  | enter {p q} (h : Enters p q) : Step body p q
  | pass {l s ss fs} (h : passes s = true) : Step body ⟨l, s :: ss, fs⟩ ⟨labelName? s, ss, fs⟩
  | resume {l ss fs} : Step body ⟨l, [], .rest ss :: fs⟩ ⟨none, ss, fs⟩
  | round {l n kind b fs} : Step body ⟨l, [], .loop n kind b :: fs⟩ ⟨none, b, .loop n kind b :: fs⟩
  | stop {l n kind b fs} (h : kind ≠ .forever) :
      Step body ⟨l, [], .loop n kind b :: fs⟩ ⟨none, [], fs⟩
  | close {l n later fs} : Step body ⟨l, [], .select n later :: fs⟩ ⟨none, [], fs⟩
  | leave {l label span ss fs frame fs'}
      (h : Frame.innermost (·.takesBreak (label.map (·.name))) fs = some (frame, fs')) :
      Step body ⟨l, .leave label span :: ss, fs⟩ ⟨none, [], fs'⟩
  | again {l label span ss fs frame fs'}
      (h : Frame.innermost (·.takesContinue (label.map (·.name))) fs = some (frame, fs')) :
      Step body ⟨l, .again label span :: ss, fs⟩ ⟨none, [], frame :: fs'⟩
  | goto {l label span ss fs l' name span' ss' fs'} (hname : name.name = label.name)
      (h : Place body ⟨l', .label name span' :: ss', fs'⟩) :
      Step body ⟨l, .goto label span :: ss, fs⟩ ⟨l', .label name span' :: ss', fs'⟩
  | fallthrough {l span ss n b later fs} :
      Step body ⟨l, .fallthrough span :: ss, .select n (b :: later) :: fs⟩
        ⟨none, b, .select n later :: fs⟩

/-- A point is reached from another one. -/
abbrev Reaches (body : List Stmt) : Point → Point → Prop := Relation.ReflTransGen (Step body)

/-- Some execution reaches the end of the body, and so without a `return`. -/
def FallsOff (body : List Stmt) : Prop := ∃ p, Reaches body (.start body) p ∧ p.AtEnd

end JaneCheck.Flow
