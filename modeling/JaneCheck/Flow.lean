import JaneCheck.Syntax

/-!
# Return reachability

Whether a body returns on every path, as far as its structure shows: a
statement list returns when one of its statements does, an `if` or `match`
when it is complete and every arm returns, and an endless loop when its body
returns and nothing breaks out of it.
-/

namespace JaneCheck.Flow

open Syntax

mutual

/-- A statement of the list leaves the enclosing loop by a `break`. Loops and
matches inside keep their own breaks. -/
def stmtsBreak : List Stmt → Bool
  | [] => false
  | s :: rest => stmtBreaks s || stmtsBreak rest

def stmtBreaks : Stmt → Bool
  | .leave _ _ => true
  | .block ⟨stmts, _, _⟩ => stmtsBreak stmts
  | .branch branches none _ => branchesBreak branches
  | .branch branches (some ⟨stmts, _, _⟩) _ => branchesBreak branches || stmtsBreak stmts
  | _ => false

def branchesBreak : List (Branch Stmt) → Bool
  | [] => false
  | ⟨_, ⟨stmts, _, _⟩⟩ :: rest => stmtsBreak stmts || branchesBreak rest

end

/-- The last statement goes on into the next case. -/
def fallsThrough (stmts : List Stmt) : Bool :=
  match stmts.getLast? with
  | some (.fallthrough _) => true
  | _ => false

mutual

/-- Every path through the statements ends in a `return`. -/
def stmtsReturn : List Stmt → Bool
  | [] => false
  | s :: rest => stmtReturns s || stmtsReturn rest

def stmtReturns : Stmt → Bool
  | .ret _ _ => true
  | .block ⟨stmts, _, _⟩ => stmtsReturn stmts
  | .branch branches (some ⟨stmts, _, _⟩) _ => branchesReturn branches && stmtsReturn stmts
  | .select _ cases (some ⟨_, ⟨stmts, _, _⟩, _⟩) _ => stmtsReturn stmts && casesReturn cases
  | .loop .forever ⟨stmts, _, _⟩ _ => !stmtsBreak stmts && stmtsReturn stmts
  | _ => false

def branchesReturn : List (Branch Stmt) → Bool
  | [] => true
  | ⟨_, ⟨stmts, _, _⟩⟩ :: rest => stmtsReturn stmts && branchesReturn rest

/-- Each case returns or goes on into one that does. -/
def casesReturn : List (Case Stmt) → Bool
  | [] => true
  | ⟨_, ⟨stmts, _, _⟩, _⟩ :: rest =>
    (stmtsReturn stmts || fallsThrough stmts) && casesReturn rest

end

end JaneCheck.Flow
