import JaneCheck.Check.Jump

/-!
# Which jumps skip a declaration

A place has a position in its own block and one in each block around it. A jump is checked
at the innermost block that holds both ends: declarations between the two positions
there, and those before the label in the blocks further in. Further out both
ends have one position (`path_of_mem`), so this is the same as to ask of every block around
the label whether what it declares before the label is declared before the jump too.
-/

namespace JaneCheck.Scopes

open Check (Place)

/-! ## Paths -/

variable {q r : Place}

section Paths

variable {s : Scopes} {b : BlockId} {i : Nat}

/-- The place of a block in its parent. -/
def outer? (s : Scopes) (b : BlockId) : Option Place := do
  let block ← s.blocks[b]?
  let parent ← block.parent
  if parent < b then some ⟨parent, block.index⟩ else none

/-- The positions in the blocks around a block. -/
def above (s : Scopes) (b : BlockId) : List Place :=
  match s.outer? b with
  | some q => s.path q.block q.index
  | none => []

theorem outer?_lt (h : s.outer? b = some q) : q.block < b := by
  simp only [outer?, Option.bind_eq_bind, Option.bind_eq_some_iff] at h
  obtain ⟨block, -, parent, -, h⟩ := h
  split at h
  next hlt =>
    cases h
    exact hlt
  next => cases h

theorem path_eq (s : Scopes) (b : BlockId) (i : Nat) : s.path b i = ⟨b, i⟩ :: s.above b := by
  rw [path, above, outer?]
  split
  next p j _ _ _ _ hblock =>
    simp only [hblock, Option.bind_eq_bind, Option.bind_some]
    split <;> rfl
  next hblock =>
    cases hb : s.blocks[b]? with
    | none => rfl
    | some block =>
      obtain ⟨_ | p, j, _, _, _, _⟩ := block
      · rfl
      · exact absurd hb (hblock p j _ _ _ _)

theorem above_of_outer (h : s.outer? b = some q) : s.above b = q :: s.above q.block := by
  rw [above, h]
  exact path_eq s q.block q.index

theorem above_of_none (h : s.outer? b = none) : s.above b = [] := by rw [above, h]

theorem above_lt (h : q ∈ s.above b) : q.block < b := by
  induction b using Nat.strongRecOn with
  | ind b ih =>
    cases ho : s.outer? b with
    | none =>
      rw [above_of_none ho] at h
      cases h
    | some r =>
      have hr := outer?_lt ho
      rw [above_of_outer ho] at h
      rcases List.mem_cons.mp h with rfl | h
      · exact hr
      · exact Nat.lt_trans (ih r.block hr h) hr

theorem ancestors_eq_map_path (s : Scopes) (b : BlockId) (i : Nat) :
    s.ancestors b = (s.path b i).map (·.block) := by
  induction b using Nat.strongRecOn generalizing i with
  | ind b ih =>
    rw [ancestors, path]
    cases hb : s.blocks[b]? with
    | none => rfl
    | some block =>
      obtain ⟨_ | p, j, _, _, _, _⟩ := block
      · rfl
      · simp only [Option.bind_some]
        split
        next hlt => rw [ih p hlt j, List.map_cons]
        next => rfl

/-- From a position on a path the path goes on as from the block of the position. -/
theorem path_append {inner outer : List Place} (h : s.path b i = inner ++ q :: outer) :
    outer = s.above q.block ∧ ∀ r ∈ inner, q.block < r.block := by
  induction inner generalizing b i with
  | nil =>
    rw [path_eq] at h
    cases h
    exact ⟨rfl, nofun⟩
  | cons x inner ih =>
    rw [path_eq, List.cons_append] at h
    obtain ⟨rfl, habove⟩ := List.cons.inj h
    have hlt : q.block < b := above_lt (by rw [habove]; simp)
    cases ho : s.outer? b with
    | none => simp [above_of_none ho] at habove
    | some r =>
      rw [above, ho] at habove
      obtain ⟨houter, hinner⟩ := ih habove
      exact ⟨houter, List.forall_mem_cons.mpr ⟨hlt, hinner⟩⟩

theorem path_of_mem (h : q ∈ s.path b i) :
    ∃ inner, s.path b i = inner ++ q :: s.above q.block ∧ ∀ r ∈ inner, q.block < r.block := by
  obtain ⟨inner, outer, heq⟩ := List.append_of_mem h
  obtain ⟨rfl, hinner⟩ := path_append heq
  exact ⟨inner, heq, hinner⟩

theorem path_unique (hq : q ∈ s.path b i) (hr : r ∈ s.path b i) (h : q.block = r.block) :
    q = r := by
  obtain ⟨inner, heq, hinner⟩ := path_of_mem hq
  rw [heq] at hr
  rcases List.mem_append.mp hr with hr | hr
  · exact absurd h (Nat.ne_of_lt (hinner r hr))
  · rcases List.mem_cons.mp hr with rfl | hr
    · rfl
    · exact absurd h.symm (Nat.ne_of_lt (above_lt hr))

theorem isAncestor_iff {a : BlockId} : s.isAncestor a b = true ↔ ∃ q ∈ s.path b i, q.block = a := by
  rw [isAncestor, List.contains_iff_mem, ancestors_eq_map_path s b i, List.mem_map]

theorem positionIn_of_mem {place : Place} (h : q ∈ s.path place.block place.index) :
    s.positionIn place q.block = q.index := by
  obtain ⟨inner, heq, hinner⟩ := path_of_mem h
  have hnone : inner.find? (·.block == q.block) = none := by
    refine List.find?_eq_none.mpr fun r hr => ?_
    simpa using (Nat.ne_of_lt (hinner r hr)).symm
  rw [positionIn, heq, List.find?_append, hnone, Option.none_or, List.find?_cons_of_pos (by simp)]
  rfl

theorem declares_eq_false_iff {p : Nat → Bool} :
    s.declares b p = false ↔
      ∀ block, s.blocks[b]? = some block → ∀ d ∈ block.decls, p d = false := by
  rw [declares]
  cases s.blocks[b]? with
  | none => simp
  | some block => simp

end Paths

/-! ## Jumps -/

section Jumps

variable {s : Scopes} {source label : Place}

/-- The innermost block that holds both ends: the path of the label enters it at `stop`,
that of the source at `start`, and further out they are one. -/
structure Meet (s : Scopes) (source label : Place) (entered : List Place) (start stop : Place) :
    Prop where
  stops : s.path label.block label.index = entered ++ stop :: s.above stop.block
  starts : start ∈ s.path source.block source.index
  same : start.block = stop.block
  apart : ∀ r ∈ entered, ∀ q ∈ s.path source.block source.index, q.block ≠ r.block

theorem exists_meet (hq : q ∈ s.path source.block source.index)
    (hr : r ∈ s.path label.block label.index) (hsame : q.block = r.block) :
    ∃ entered start stop, s.Meet source label entered start stop ∧
      (s.ancestors label.block).find? (s.isAncestor · source.block) = some stop.block := by
  have hfirst : ((s.path label.block label.index).find?
      fun place => s.isAncestor place.block source.block).isSome = true := by
    rw [List.find?_isSome]
    exact ⟨r, hr, isAncestor_iff.mpr ⟨q, hq, hsame⟩⟩
  obtain ⟨stop, hstop⟩ := Option.isSome_iff_exists.mp hfirst
  obtain ⟨hcommon, entered, outer, heq, hapart⟩ := List.find?_eq_some_iff_append.mp hstop
  obtain ⟨start, hstart, hblock⟩ := isAncestor_iff.mp hcommon
  obtain ⟨rfl, -⟩ := path_append heq
  refine ⟨entered, start, stop, ⟨heq, hstart, hblock, fun x hx y hy hxy => ?_⟩, ?_⟩
  · have hno := hapart x hx
    rw [isAncestor_iff.mpr ⟨y, hy, hxy⟩] at hno
    cases hno
  · rw [ancestors_eq_map_path s label.block label.index, List.find?_map]
    exact congrArg (Option.map (·.block)) hstop

/-- The two checks of a jump: at the innermost common block, and in the entered ones. -/
theorem jumpsDeclarations_of_meet {entered : List Place} {start stop : Place}
    (h : s.Meet source label entered start stop)
    (hfind : (s.ancestors label.block).find? (s.isAncestor · source.block) = some stop.block) :
    s.jumpsDeclarations source label = false ↔
      s.declares stop.block (fun d => start.index < d && d < stop.index) = false ∧
      ∀ r ∈ entered, s.declares r.block (· < r.index) = false := by
  have hstart : s.positionIn source stop.block = start.index := h.same ▸ positionIn_of_mem h.starts
  have hstop : s.positionIn label stop.block = stop.index :=
    positionIn_of_mem (by rw [h.stops]; simp)
  have hentered : (s.path label.block label.index).takeWhile (·.block != stop.block) = entered := by
    rw [h.stops, List.takeWhile_append_of_pos, List.takeWhile_cons_of_neg (by simp),
      List.append_nil]
    intro r hr
    have hlt := (path_append h.stops).2 r hr
    simpa using (Nat.ne_of_lt hlt).symm
  rw [jumpsDeclarations, hfind]
  simp only [hstart, hstop, hentered, Bool.or_eq_false_iff, List.any_eq_false, Bool.not_eq_true]

/-- A jump between places that some block holds both skips no declaration exactly if each
declaration before the label, in whatever block, is one before the source. -/
theorem jumpsDeclarations_path (hq : q ∈ s.path source.block source.index)
    (hr : r ∈ s.path label.block label.index) (hsame : q.block = r.block) :
    s.jumpsDeclarations source label = false ↔
      ∀ r ∈ s.path label.block label.index, ∀ block, s.blocks[r.block]? = some block →
        ∀ d ∈ block.decls, d < r.index →
          ∃ q ∈ s.path source.block source.index, q.block = r.block ∧ d ≤ q.index := by
  obtain ⟨entered, start, stop, hmeet, hfind⟩ := exists_meet hq hr hsame
  rw [jumpsDeclarations_of_meet hmeet hfind, declares_eq_false_iff]
  simp only [declares_eq_false_iff]
  constructor
  · rintro ⟨hcommon, hentered⟩ r hr block hblock d hd hlt
    rw [hmeet.stops] at hr
    rcases List.mem_append.mp hr with hr | hr
    · have hno := hentered r hr block hblock d hd
      simp [hlt] at hno
    rcases List.mem_cons.mp hr with rfl | hr
    · have hno := hcommon block hblock d hd
      refine ⟨start, hmeet.starts, hmeet.same, ?_⟩
      simpa [hlt] using hno
    · -- further out the position of the label is that of the source
      obtain ⟨inner, heq, -⟩ := path_of_mem hmeet.starts
      refine ⟨r, ?_, rfl, Nat.le_of_lt hlt⟩
      rw [heq, hmeet.same]
      simp [hr]
  · intro h
    have hstop : stop ∈ s.path label.block label.index := by rw [hmeet.stops]; simp
    constructor
    · intro block hblock d hd
      refine Bool.eq_false_iff.mpr fun hskips => ?_
      obtain ⟨hstart, hlt⟩ : start.index < d ∧ d < stop.index := by simpa using hskips
      obtain ⟨q, hq, hsame, hle⟩ := h stop hstop block hblock d hd hlt
      obtain rfl := path_unique hq hmeet.starts (hsame.trans hmeet.same.symm)
      omega
    · intro r hr block hblock d hd
      refine Bool.eq_false_iff.mpr fun hskips => ?_
      have hlt : d < r.index := by simpa using hskips
      have hpath : r ∈ s.path label.block label.index := by rw [hmeet.stops]; simp [hr]
      obtain ⟨q, hq, hsame, -⟩ := h r hpath block hblock d hd hlt
      exact hmeet.apart r hr q hq hsame

end Jumps

/-! ## The block tree -/

/-- Each block is younger than its parent. -/
def Ordered (s : Scopes) : Prop :=
  ∀ (b : BlockId) (block : Block) (parent : BlockId),
    s.blocks[b]? = some block → block.parent = some parent → parent < b

/-- A place and its position in each block around it. -/
inductive Inside (s : Scopes) (place : Place) : Place → Prop
  | here : s.Inside place place
  | out {inner : Place} {block : Block} {parent : BlockId} (h : s.Inside place inner)
      (hblock : s.blocks[inner.block]? = some block) (hparent : block.parent = some parent) :
      s.Inside place ⟨parent, block.index⟩

section Tree

variable {s : Scopes} {place q : Place}

theorem Ordered.outer? (h : s.Ordered) {b : BlockId} :
    s.outer? b = some q ↔
      ∃ block, s.blocks[b]? = some block ∧ block.parent = some q.block ∧ block.index = q.index := by
  simp only [Scopes.outer?, Option.bind_eq_bind, Option.bind_eq_some_iff]
  constructor
  · rintro ⟨block, hblock, parent, hparent, hq⟩
    rw [if_pos (h b block parent hblock hparent)] at hq
    cases hq
    exact ⟨block, hblock, hparent, rfl⟩
  · rintro ⟨block, hblock, hparent, hindex⟩
    refine ⟨block, hblock, q.block, hparent, ?_⟩
    rw [if_pos (h b block q.block hblock hparent), hindex]

/-- Each block around a place that stands inside has the place inside. -/
theorem Ordered.inside_of_mem_path (h : s.Ordered) {b : BlockId} {i : Nat}
    (hb : s.Inside place ⟨b, i⟩) (hq : q ∈ s.path b i) : s.Inside place q := by
  induction b using Nat.strongRecOn generalizing i with
  | ind b ih =>
    rw [path_eq] at hq
    rcases List.mem_cons.mp hq with rfl | hq
    · exact hb
    cases ho : s.outer? b with
    | none =>
      rw [above_of_none ho] at hq
      cases hq
    | some r =>
      rw [above, ho] at hq
      obtain ⟨block, hblock, hparent, hindex⟩ := h.outer?.mp ho
      refine ih r.block (outer?_lt ho) ?_ hq
      rw [← hindex]
      exact .out hb hblock hparent

theorem Ordered.mem_path_iff (h : s.Ordered) :
    q ∈ s.path place.block place.index ↔ s.Inside place q := by
  refine ⟨h.inside_of_mem_path .here, fun hinside => ?_⟩
  induction hinside with
  | here => simp [path_eq]
  | @out inner block parent _ hblock hparent ih =>
    obtain ⟨more, heq, -⟩ := path_of_mem ih
    have ho : s.outer? inner.block = some ⟨parent, block.index⟩ :=
      h.outer?.mpr ⟨block, hblock, hparent, rfl⟩
    rw [heq, above_of_outer ho]
    simp

end Tree

/-- In a tree of blocks, a jump within the tree skips no declaration exactly if for each block
around the label and each declaration of it before the label, the block is around the source
too and the declaration is not behind the source. -/
theorem jumpsDeclarations_eq_false_iff {s : Scopes} {source label : Place} {root : BlockId}
    {i j : Nat} (h : s.Ordered) (hsource : s.Inside source ⟨root, i⟩)
    (hlabel : s.Inside label ⟨root, j⟩) :
    s.jumpsDeclarations source label = false ↔
      ∀ outer, s.Inside label outer → ∀ block, s.blocks[outer.block]? = some block →
        ∀ d ∈ block.decls, d < outer.index →
          ∃ at_, s.Inside source ⟨outer.block, at_⟩ ∧ d ≤ at_ := by
  rw [jumpsDeclarations_path (h.mem_path_iff.mpr hsource) (h.mem_path_iff.mpr hlabel) rfl]
  simp only [h.mem_path_iff]
  constructor
  · intro hall outer houter block hblock d hd hlt
    obtain ⟨q, hq, hsame, hle⟩ := hall outer houter block hblock d hd hlt
    exact ⟨q.index, hsame ▸ hq, hle⟩
  · intro hall outer houter block hblock d hd hlt
    obtain ⟨at_, hat, hle⟩ := hall outer houter block hblock d hd hlt
    exact ⟨⟨outer.block, at_⟩, hat, rfl, hle⟩

/-- The block `0` declares by its statement `1` and has the blocks `1` and `2` at its statements
`2` and `3`; the block `2` declares by its statement `0`. -/
def twoBranches : Scopes where
  blocks := #[{ parent := none, index := 0, isUnsafe := false, decls := [1] },
    { parent := some 0, index := 2, isUnsafe := false },
    { parent := some 0, index := 3, isUnsafe := false, decls := [0] }]

theorem jumpsDeclarations_eq_false_iff_branches :
    twoBranches.Ordered ∧ twoBranches.Inside ⟨1, 0⟩ ⟨0, 2⟩ ∧ twoBranches.Inside ⟨2, 0⟩ ⟨0, 3⟩ ∧
    twoBranches.jumpsDeclarations ⟨1, 0⟩ ⟨2, 0⟩ = false ∧
    twoBranches.Inside ⟨2, 1⟩ ⟨0, 3⟩ ∧ twoBranches.jumpsDeclarations ⟨1, 0⟩ ⟨2, 1⟩ = true := by
  have hordered : twoBranches.Ordered := by
    rintro (_ | _ | _ | b) block parent hblock hparent <;> cases hblock <;> cases hparent <;> decide
  have hsource : twoBranches.Inside ⟨1, 0⟩ ⟨0, 2⟩ :=
    hordered.mem_path_iff.mp (by simp [path, twoBranches])
  have hlabel (i : Nat) : twoBranches.Inside ⟨2, i⟩ ⟨0, 3⟩ :=
    hordered.mem_path_iff.mp (by simp [path, twoBranches])
  refine ⟨hordered, hsource, hlabel 0, ?_, hlabel 1, ?_⟩
  · rw [jumpsDeclarations_eq_false_iff hordered hsource (hlabel 0)]
    intro outer houter block hblock d hd hlt
    have hcases : outer = ⟨2, 0⟩ ∨ outer = ⟨0, 3⟩ := by
      simpa [path, twoBranches] using hordered.mem_path_iff.mpr houter
    rcases hcases with rfl | rfl
    · cases hlt
    · cases hblock
      obtain rfl := List.mem_singleton.mp hd
      exact ⟨2, hsource, by decide⟩
  · refine Bool.not_eq_false _ ▸ fun hjump => ?_
    rw [jumpsDeclarations_eq_false_iff hordered hsource (hlabel 1)] at hjump
    obtain ⟨at_, hat, -⟩ := hjump ⟨2, 1⟩ .here _ rfl 0 (by simp [twoBranches]) (by decide)
    have hno := hordered.mem_path_iff.mpr hat
    simp [path, twoBranches] at hno

end JaneCheck.Scopes
