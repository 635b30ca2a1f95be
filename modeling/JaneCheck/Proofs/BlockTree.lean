import JaneCheck.Proofs.Replay

/-!
# The tree of blocks

A check may open blocks below the one it runs in and may add to that one; it
leaves every other block as it is. `Scopes.Grows home` says this of two scopes:
old blocks stay in their places, those besides `home` keep their content apart
from marks, and each new block is below `home` or below another new one.
-/

namespace JaneCheck.Scopes

/-- The block stays in its place and loses nothing. -/
structure Block.Extends (b b' : Block) : Prop where
  parent : b'.parent = b.parent
  index : b'.index = b.index
  isUnsafe : b'.isUnsafe = b.isUnsafe
  vars : b.vars <:+ b'.vars
  aliases : b.bare.aliases <:+ b'.bare.aliases
  decls : b.decls <:+ b'.decls

/-- Only the block `home` got new content, and new blocks are below it. -/
structure Grows (home : Option BlockId) (s s' : Scopes) : Prop where
  kept : ∀ ⦃b block⦄, s.blocks[b]? = some block → ∃ block', s'.blocks[b]? = some block' ∧
    block.Extends block' ∧ (home ≠ some b → block'.bare = block.bare)
  opened : ∀ ⦃b block⦄, s'.blocks[b]? = some block → s.blocks.size ≤ b →
    block.parent = home ∨ ∃ q, block.parent = some q ∧ s.blocks.size ≤ q
  vars : ∀ ⦃v : VarId⦄ ⦃var : Var⦄, s.vars[v]? = some var → ∃ var', s'.vars[v]? = some var' ∧
    var'.bare = var.bare

variable {home : Option BlockId} {s s' s'' : Scopes}

theorem Block.Extends.refl (b : Block) : b.Extends b :=
  ⟨rfl, rfl, rfl, List.suffix_rfl, List.suffix_rfl, List.suffix_rfl⟩

theorem Block.Extends.trans {a b c : Block} (h : a.Extends b) (h' : b.Extends c) : a.Extends c :=
  ⟨h'.parent.trans h.parent, h'.index.trans h.index, h'.isUnsafe.trans h.isUnsafe,
    h.vars.trans h'.vars, h.aliases.trans h'.aliases, h.decls.trans h'.decls⟩

theorem Block.extends_of_bare {b b' : Block} (h : b'.bare = b.bare) : b.Extends b' where
  parent := show b'.bare.parent = b.bare.parent by rw [h]
  index := show b'.bare.index = b.bare.index by rw [h]
  isUnsafe := show b'.bare.isUnsafe = b.bare.isUnsafe by rw [h]
  vars := show b.bare.vars <:+ b'.bare.vars from h ▸ List.suffix_rfl
  aliases := h ▸ List.suffix_rfl
  decls := show b.bare.decls <:+ b'.bare.decls from h ▸ List.suffix_rfl

theorem grows_of_bare (h : s'.bare = s.bare) : s.Grows home s' where
  kept b block hb := by
    have he : s'.blocks[b]?.map Block.bare = some block.bare := by
      rw [← getElem?_blocks_bare, h, getElem?_blocks_bare, hb, Option.map_some]
    obtain ⟨block', hb', hbare⟩ := Option.map_eq_some_iff.mp he
    exact ⟨block', hb', Block.extends_of_bare hbare, fun _ => hbare⟩
  opened b block hb hsize := by
    have hsizes : s'.blocks.size = s.blocks.size := by
      have hsize := congrArg (·.blocks.size) h
      simpa [Scopes.bare] using hsize
    obtain ⟨hlt, -⟩ := Array.getElem?_eq_some_iff.mp hb
    omega
  vars v var hv := by
    have he : s'.vars[v]?.map Var.bare = some var.bare := by
      rw [← getElem?_vars_bare, h, getElem?_vars_bare, hv, Option.map_some]
    exact Option.map_eq_some_iff.mp he

theorem Grows.size_le (h : s.Grows home s') : s.blocks.size ≤ s'.blocks.size := by
  refine Nat.le_of_not_lt fun hlt => ?_
  obtain ⟨block, hblock, -⟩ := h.kept (Array.getElem?_eq_getElem hlt)
  exact Nat.lt_irrefl _ (Array.getElem?_eq_some_iff.mp hblock).1

theorem Grows.trans (h : s.Grows home s') (h' : s'.Grows home s'') : s.Grows home s'' where
  kept b block hb := by
    obtain ⟨block1, hb1, hext, hbare⟩ := h.kept hb
    obtain ⟨block2, hb2, hext', hbare'⟩ := h'.kept hb1
    exact ⟨block2, hb2, hext.trans hext', fun hne => (hbare' hne).trans (hbare hne)⟩
  opened b block hb hsize := by
    by_cases hlt : b < s'.blocks.size
    · -- A block that the first step opened has kept its parent in the second.
      have hb1 := Array.getElem?_eq_getElem hlt
      obtain ⟨block2, hb2, hext, -⟩ := h'.kept hb1
      cases hb.symm.trans hb2
      rw [hext.parent]
      exact h.opened hb1 hsize
    · refine (h'.opened hb (Nat.le_of_not_lt hlt)).imp_right ?_
      rintro ⟨q, hq, hle⟩
      exact ⟨q, hq, Nat.le_trans h.size_le hle⟩
  vars v var hv := by
    obtain ⟨var1, hv1, hbare⟩ := h.vars hv
    obtain ⟨var2, hv2, hbare'⟩ := h'.vars hv1
    exact ⟨var2, hv2, hbare'.trans hbare⟩

/-- What grows at a block that was opened below `home` grows at `home`. -/
theorem Grows.enter {index : Nat} {isUnsafe : Bool}
    (h : (s.enter home index isUnsafe).2.Grows (some s.blocks.size) s') : s.Grows home s' where
  kept b block hb := by
    obtain ⟨hlt, -⟩ := Array.getElem?_eq_some_iff.mp hb
    have hb1 : (s.enter home index isUnsafe).2.blocks[b]? = some block := by
      rw [← hb]
      exact Array.getElem?_push_lt hlt ▸ (Array.getElem?_eq_getElem hlt).symm
    obtain ⟨block', hb', hext, hbare⟩ := h.kept hb1
    exact ⟨block', hb', hext, fun _ => hbare fun he => by cases he; omega⟩
  opened b block hb hsize := by
    have hsizes : (s.enter home index isUnsafe).2.blocks.size = s.blocks.size + 1 :=
      Array.size_push _
    rcases Nat.eq_or_lt_of_le hsize with rfl | hlt
    · -- The block itself, whose parent is the home.
      obtain ⟨block', hb', hext, -⟩ := h.kept (Array.getElem?_push_size)
      cases hb.symm.trans hb'
      exact .inl hext.parent
    · right
      rcases h.opened hb (by omega) with hparent | ⟨q, hq, hle⟩
      · exact ⟨s.blocks.size, hparent, Nat.le_refl _⟩
      · exact ⟨q, hq, by omega⟩
  vars v var hv := h.vars hv

theorem grows_modifyBlock {b : BlockId} {f : Block → Block}
    (hf : ∀ block : Block, block.Extends (f block)) : s.Grows (some b) (s.modifyBlock b f) where
  kept b' block hb := by
    show ∃ block', (s.blocks.modify b f)[b']? = some block' ∧ _
    rw [Array.getElem?_modify, hb]
    split
    next heq => exact ⟨f block, rfl, hf block, fun hne => absurd (congrArg some heq) hne⟩
    · exact ⟨block, rfl, .refl block, fun _ => rfl⟩
  opened b' block hb hsize := by
    obtain ⟨hlt, -⟩ := Array.getElem?_eq_some_iff.mp hb
    rw [show (s.modifyBlock b f).blocks.size = s.blocks.size from Array.size_modify] at hlt
    omega
  vars v var hv := ⟨var, hv, rfl⟩

theorem grows_addAlias (b : BlockId) (a : LocalAlias) : s.Grows (some b) (s.addAlias b a) :=
  grows_modifyBlock fun _ =>
    ⟨rfl, rfl, rfl, List.suffix_rfl, List.suffix_cons _ _, List.suffix_rfl⟩

theorem grows_declare {b : BlockId} {v : Var} {id : VarId} (h : s.declare b v = .ok (id, s')) :
    s.Grows (some b) s' := by
  unfold Scopes.declare at h
  split at h
  · cases h
  cases h
  have hblock : s.Grows (some b) (s.modifyBlock b fun block =>
      { block with vars := s.vars.size :: block.vars }) := grows_modifyBlock fun _ =>
    ⟨rfl, rfl, rfl, List.suffix_cons _ _, List.suffix_rfl, List.suffix_rfl⟩
  refine { hblock with vars := fun w var hw => ⟨var, ?_, rfl⟩ }
  obtain ⟨hlt, -⟩ := Array.getElem?_eq_some_iff.mp hw
  rw [← hw]
  exact Array.getElem?_push_lt hlt ▸ (Array.getElem?_eq_getElem hlt).symm

end JaneCheck.Scopes
