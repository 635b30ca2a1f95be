import JaneCheck.Proofs.BlockTree

/-!
# The names in a block

The variables of a block have distinct names, and so have its aliases
(`Scopes.Distinct`). As the blocks grow this stays, and an alias is never given
the name of a variable that its block has (`Scopes.AddsNames`). A variable may
be given the name of an alias: it is compared with the variables alone.
-/

namespace JaneCheck.Scopes

def varIds (s : Scopes) (b : BlockId) : List VarId := (s.blocks[b]?.map (·.vars)).getD []

/-- The names of the variables of a block, newest first. -/
def varNames (s : Scopes) (b : BlockId) : List String :=
  (s.varIds b).filterMap fun v => s.vars[v]?.map (·.name)

/-- The names of the aliases of a block, newest first. -/
def aliasNames (s : Scopes) (b : BlockId) : List String :=
  ((s.blocks[b]?.map (·.aliases)).getD []).map (·.name)

/-- No two variables and no two aliases of a block have one name. -/
structure Distinct (s : Scopes) : Prop where
  known : ∀ b, ∀ v ∈ s.varIds b, v < s.vars.size
  vars : ∀ b, (s.varNames b).Nodup
  aliases : ∀ b, (s.aliasNames b).Nodup

/-- No name is lost, and new aliases have names that no variable of the block had. -/
structure AddsNames (s s' : Scopes) : Prop where
  vars : ∀ b, s.varNames b <:+ s'.varNames b
  aliases : ∀ b, ∃ new, s'.aliasNames b = new ++ s.aliasNames b ∧ ∀ name ∈ new, name ∉ s.varNames b

/-- The scopes grow at `home`, and the names in a block stay distinct. -/
structure Spreads (home : Option BlockId) (s s' : Scopes) : Prop extends s.Grows home s' where
  names : s.Distinct → s'.Distinct ∧ s.AddsNames s'

variable {home : Option BlockId} {s s' s'' : Scopes} {b : BlockId}

theorem AddsNames.trans (h : s.AddsNames s') (h' : s'.AddsNames s'') : s.AddsNames s'' where
  vars b := (h.vars b).trans (h'.vars b)
  aliases b := by
    obtain ⟨new, hnew, hfree⟩ := h.aliases b
    obtain ⟨new', hnew', hfree'⟩ := h'.aliases b
    refine ⟨new' ++ new, by rw [hnew', hnew, List.append_assoc], fun name hname => ?_⟩
    rcases List.mem_append.mp hname with hname | hname
    · exact fun hold => hfree' name hname ((h.vars b).subset hold)
    · exact hfree name hname

theorem Spreads.trans (h : s.Spreads home s') (h' : s'.Spreads home s'') : s.Spreads home s'' where
  toGrows := h.toGrows.trans h'.toGrows
  names hs := by
    obtain ⟨hs', hadds⟩ := h.names hs
    obtain ⟨hs'', hadds'⟩ := h'.names hs'
    exact ⟨hs'', hadds.trans hadds'⟩

/-! ## Changes of something else than names -/

/-- Both scopes have the same names. -/
structure SameNames (s s' : Scopes) : Prop where
  ids : ∀ b, s'.varIds b = s.varIds b
  vars : s'.vars.map (·.name) = s.vars.map (·.name)
  aliases : ∀ b, s'.aliasNames b = s.aliasNames b

theorem SameNames.varNames (h : s.SameNames s') (b : BlockId) : s'.varNames b = s.varNames b := by
  have hname (v : VarId) : s'.vars[v]?.map (·.name) = s.vars[v]?.map (·.name) := by
    rw [← Array.getElem?_map, h.vars, Array.getElem?_map]
  simp only [Scopes.varNames, h.ids, hname]

theorem SameNames.distinct (h : s.SameNames s') (hs : s.Distinct) : s'.Distinct where
  known b v hv := by
    have hsize : s'.vars.size = s.vars.size := by simpa using congrArg Array.size h.vars
    exact hsize ▸ hs.known b v (h.ids b ▸ hv)
  vars b := h.varNames b ▸ hs.vars b
  aliases b := h.aliases b ▸ hs.aliases b

theorem SameNames.names (h : s.SameNames s') (hs : s.Distinct) : s'.Distinct ∧ s.AddsNames s' :=
  ⟨h.distinct hs, fun b => h.varNames b ▸ List.suffix_rfl,
    fun b => ⟨[], h.aliases b, by simp⟩⟩

theorem sameNames_bare (h : s'.bare = s.bare) : s.SameNames s' := by
  have hblock (b : BlockId) : s'.blocks[b]?.map Block.bare = s.blocks[b]?.map Block.bare := by
    rw [← getElem?_blocks_bare, h, getElem?_blocks_bare]
  have haliases (s : Scopes) (b : BlockId) : s.aliasNames b =
      (((s.blocks[b]?.map Block.bare).map (·.aliases)).getD []).map (·.name) := by
    unfold aliasNames
    cases s.blocks[b]? <;> simp [Block.bare, Function.comp_def, LocalAlias.bare]
  refine ⟨fun b => ?_, ?_, fun b => by rw [haliases, haliases, hblock]⟩
  · have hids := congrArg (Option.map (·.vars)) (hblock b)
    simp only [Option.map_map] at hids
    exact congrArg (·.getD []) hids
  · have hvars := congrArg (fun s => s.vars.map (·.name)) h
    simpa [bare, Array.map_map, Function.comp_def, Var.bare] using hvars

theorem spreads_of_bare (h : s'.bare = s.bare) : s.Spreads home s' :=
  ⟨grows_of_bare h, (sameNames_bare h).names⟩

theorem sameNames_enter (s : Scopes) (parent : Option BlockId) (index : Nat) (isUnsafe : Bool) :
    s.SameNames (s.enter parent index isUnsafe).2 := by
  have hblock (b : BlockId) : (s.enter parent index isUnsafe).2.blocks[b]? =
      if b = s.blocks.size then some { parent, index, isUnsafe } else s.blocks[b]? :=
    Array.getElem?_push
  refine ⟨fun b => ?_, rfl, fun b => ?_⟩
  · simp only [varIds, hblock]
    split <;> simp_all
  · simp only [aliasNames, hblock]
    split <;> simp_all

theorem Spreads.enter {index : Nat} {isUnsafe : Bool}
    (h : (s.enter home index isUnsafe).2.Spreads (some s.blocks.size) s') : s.Spreads home s' where
  toGrows := h.toGrows.enter
  names hs := by
    have henter := sameNames_enter s home index isUnsafe
    obtain ⟨hs1, hadds⟩ := henter.names hs
    obtain ⟨hs', hadds'⟩ := h.names hs1
    exact ⟨hs', hadds.trans hadds'⟩

theorem spreads_modifyBlock {f : Block → Block}
    (hf : ∀ block : Block, block.Extends (f block) ∧ (f block).vars = block.vars ∧
      (f block).aliases = block.aliases) : s.Spreads (some b) (s.modifyBlock b f) where
  toGrows := grows_modifyBlock fun block => (hf block).1
  names := by
    refine SameNames.names ⟨fun b' => ?_, rfl, fun b' => ?_⟩
    · simp only [varIds, modifyBlock, Array.getElem?_modify]
      split
      · simp [Function.comp_def, (hf _).2.1]
      · rfl
    · simp only [aliasNames, modifyBlock, Array.getElem?_modify]
      split
      · simp [Function.comp_def, (hf _).2.2]
      · rfl

/-! ## New names -/

theorem local?_eq_none_iff {name : String} : s.local? b name = none ↔ name ∉ s.varNames b := by
  unfold local? varNames varIds
  cases s.blocks[b]? with
  | none => simp
  | some block => simp [Option.any_eq_true, not_exists, not_and]

theorem localAlias?_eq_none_iff {name : String} :
    s.localAlias? b name = none ↔ name ∉ s.aliasNames b := by
  unfold localAlias? aliasNames
  cases s.blocks[b]? with
  | none => simp
  | some block => simp

theorem name_mem_of_declare {v : Var} {id : VarId} (h : s.declare b v = .error id) :
    v.name ∈ s.varNames b := by
  refine Decidable.of_not_not fun hfree => ?_
  simp [declare, local?_eq_none_iff.mpr hfree] at h

section Declare

variable {b : BlockId} {v : Var} {id : VarId} (h : s.declare b v = .ok (id, s'))

include h

theorem name_not_mem_of_declare : v.name ∉ s.varNames b := by
  unfold declare at h
  split at h
  · cases h
  next hfree => exact local?_eq_none_iff.mp hfree

theorem varIds_declare (b' : BlockId) : s'.varIds b' =
    if b' = b ∧ b < s.blocks.size then s.vars.size :: s.varIds b' else s.varIds b' := by
  unfold declare at h
  split at h
  · cases h
  cases h
  simp only [varIds, modifyBlock, Array.getElem?_modify]
  grind

theorem vars_declare : s'.vars = s.vars.push v := by
  unfold declare at h
  split at h
  · cases h
  cases h
  rfl

theorem varNames_declare (hs : s.Distinct) (b' : BlockId) : s'.varNames b' =
    if b' = b ∧ b < s.blocks.size then v.name :: s.varNames b' else s.varNames b' := by
  have hold (ids : List VarId) (hknown : ∀ w ∈ ids, w < s.vars.size) :
      ids.filterMap (fun w => s'.vars[w]?.map (·.name)) =
        ids.filterMap (fun w => s.vars[w]?.map (·.name)) := by
    induction ids with
    | nil => rfl
    | cons w ids ih =>
      obtain ⟨hw, hids⟩ := List.forall_mem_cons.mp hknown
      have hsame : s'.vars[w]? = s.vars[w]? := by
        rw [vars_declare h, Array.getElem?_push_lt hw, ← Array.getElem?_eq_getElem hw]
      simp only [List.filterMap_cons, hsame, ih hids]
  simp only [varNames, varIds_declare h b']
  split
  · simp [vars_declare h, ← hold _ (hs.known b')]
  · exact hold _ (hs.known b')

theorem aliasNames_declare (b' : BlockId) : s'.aliasNames b' = s.aliasNames b' := by
  unfold declare at h
  split at h
  · cases h
  cases h
  simp only [aliasNames, modifyBlock, Array.getElem?_modify]
  grind

theorem spreads_declare : s.Spreads (some b) s' where
  toGrows := grows_declare h
  names hs := by
    have hfree := name_not_mem_of_declare h
    refine ⟨⟨fun b' w hw => ?_, fun b' => ?_, fun b' => ?_⟩, fun b' => ?_, fun b' => ?_⟩
    · rw [vars_declare h, Array.size_push]
      rw [varIds_declare h] at hw
      have hknown := hs.known b' w
      grind
    · rw [varNames_declare h hs]
      split
      next hb => exact List.nodup_cons.mpr ⟨hb.1 ▸ hfree, hs.vars b'⟩
      · exact hs.vars b'
    · exact aliasNames_declare h b' ▸ hs.aliases b'
    · rw [varNames_declare h hs]
      split
      · exact List.suffix_cons _ _
      · exact List.suffix_rfl
    · exact ⟨[], aliasNames_declare h b', by simp⟩

end Declare

theorem aliasNames_addAlias (b : BlockId) (a : LocalAlias) (b' : BlockId) :
    (s.addAlias b a).aliasNames b' =
      if b' = b ∧ b < s.blocks.size then a.name :: s.aliasNames b' else s.aliasNames b' := by
  simp only [aliasNames, addAlias, modifyBlock, Array.getElem?_modify]
  grind

theorem spreads_addAlias {a : LocalAlias} (halias : a.name ∉ s.aliasNames b)
    (hvar : a.name ∉ s.varNames b) : s.Spreads (some b) (s.addAlias b a) where
  toGrows := grows_addAlias b a
  names hs := by
    have hids (b' : BlockId) : (s.addAlias b a).varIds b' = s.varIds b' := by
      simp only [varIds, addAlias, modifyBlock, Array.getElem?_modify]
      grind
    have hvars (b' : BlockId) : (s.addAlias b a).varNames b' = s.varNames b' := by
      simp only [varNames, hids]
      rfl
    refine ⟨⟨fun b' w hw => hs.known b' w (hids b' ▸ hw), fun b' => hvars b' ▸ hs.vars b',
      fun b' => ?_⟩, fun b' => hvars b' ▸ List.suffix_rfl, fun b' => ?_⟩
    · rw [aliasNames_addAlias]
      split
      next hb => exact List.nodup_cons.mpr ⟨hb.1 ▸ halias, hs.aliases b'⟩
      · exact hs.aliases b'
    · rw [aliasNames_addAlias]
      split
      next hb => exact ⟨[a.name], rfl, by simpa [hb.1] using hvar⟩
      · exact ⟨[], rfl, by simp⟩

end JaneCheck.Scopes
