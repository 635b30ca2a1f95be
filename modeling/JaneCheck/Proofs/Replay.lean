import JaneCheck.Proofs.Effects

/-!
# Steps that do the same

What a step of resolution or evaluation answers depends on the state only
through its view: the scopes without the marks of what was used, and what is
remembered of aliases and globals. `Step.Mirrors` compares two steps: from
related states the second answers what the first answers, adds the same output,
and leaves related states. There is a rule for each way to make a check.
-/

namespace JaneCheck

/-! ## Scopes without marks -/

/-- A variable without the note that it was used. -/
def Var.bare (v : Var) : Var := { v with used := false }

/-- An alias without the note that it was used. -/
def LocalAlias.bare (a : LocalAlias) : LocalAlias := { a with used := false }

namespace Scopes

def Block.bare (b : Block) : Block := { b with aliases := b.aliases.map LocalAlias.bare }

/-- Scopes without the notes on what was used. -/
def bare (s : Scopes) : Scopes where
  blocks := s.blocks.map Block.bare
  vars := s.vars.map Var.bare

variable (s : Scopes) (b : BlockId) (name : String)

@[simp] theorem getElem?_blocks_bare : s.bare.blocks[b]? = s.blocks[b]?.map Block.bare := by
  simp [bare]

@[simp] theorem getElem?_vars_bare (v : VarId) : s.bare.vars[v]? = s.vars[v]?.map Var.bare := by
  simp [bare]

theorem ancestors_bare : s.bare.ancestors b = s.ancestors b := by
  have hparent : ∀ b : BlockId,
      s.bare.blocks[b]?.bind (·.parent) = s.blocks[b]?.bind (·.parent) := by
    intro b
    cases h : s.blocks[b]? <;> simp [h, Block.bare]
  fun_induction Scopes.ancestors s b with
  | case1 b q hq hlt ih =>
    rw [Scopes.ancestors, hparent, hq]
    simp only [hlt, ↓reduceIte, ih]
  | case2 b q hq hlt =>
    rw [Scopes.ancestors, hparent, hq]
    simp only [hlt, ↓reduceIte]
  | case3 b hb =>
    rw [Scopes.ancestors, hparent, hb]

theorem local?_bare : s.bare.local? b name = s.local? b name := by
  have hname : ∀ v : VarId, s.bare.vars[v]?.any (·.name == name) =
      s.vars[v]?.any (·.name == name) := by
    intro v
    cases h : s.vars[v]? <;> simp [h, Var.bare]
  unfold Scopes.local?
  simp only [getElem?_blocks_bare, hname]
  cases s.blocks[b]? <;> rfl

theorem lookup?_bare : s.bare.lookup? b name = s.lookup? b name := by
  unfold Scopes.lookup?
  simp only [ancestors_bare, local?_bare]

theorem inUnsafe_bare : s.bare.inUnsafe b = s.inUnsafe b := by
  have hunsafe : ∀ b : BlockId, s.bare.blocks[b]?.any (·.isUnsafe) =
      s.blocks[b]?.any (·.isUnsafe) := by
    intro b
    cases h : s.blocks[b]? <;> simp [h, Block.bare]
  unfold Scopes.inUnsafe
  simp only [ancestors_bare, hunsafe]

theorem find?_map_bare (as : List LocalAlias) :
    (as.map LocalAlias.bare).find? (·.name == name) =
      (as.find? (·.name == name)).map LocalAlias.bare := by
  rw [List.find?_map]
  rfl

theorem localAlias?_bare :
    s.bare.localAlias? b name = (s.localAlias? b name).map LocalAlias.bare := by
  unfold Scopes.localAlias?
  rw [getElem?_blocks_bare]
  cases s.blocks[b]? with
  | none => rfl
  | some block => exact find?_map_bare name block.aliases

theorem lookupAlias?_bare : s.bare.lookupAlias? b name =
    (s.lookupAlias? b name).map fun found => (found.1, found.2.bare) := by
  unfold Scopes.lookupAlias?
  simp only [ancestors_bare, localAlias?_bare]
  induction s.ancestors b with
  | nil => rfl
  | cons b bs ih =>
    simp only [List.findSome?_cons]
    cases s.localAlias? b name with
    | none => exact ih
    | some a => rfl

theorem map_modify {α β : Type} {g : α → β} {f : α → α} (hf : ∀ a, g (f a) = g a) (as : Array α)
    (i : Nat) : (as.modify i f).map g = as.map g := by
  refine Array.ext_getElem? fun j => ?_
  simp only [Array.getElem?_map, Array.getElem?_modify]
  split
  · cases as[j]? with
    | none => rfl
    | some a => exact congrArg some (hf a)
  · rfl

theorem bare_modifyVar (v : VarId) :
    (s.modifyVar v fun v => { v with used := true }).bare = s.bare := by
  simp only [bare, modifyVar, map_modify (fun _ => rfl : ∀ v : Var,
    Var.bare { v with used := true } = v.bare)]

theorem map_bare_markAlias (as : List LocalAlias) :
    (markAlias name as).map LocalAlias.bare = as.map LocalAlias.bare := by
  induction as with
  | nil => rfl
  | cons a as ih =>
    unfold markAlias
    split
    · rfl
    · rw [List.map_cons, ih, List.map_cons]

theorem bare_modifyBlock {f : Block → Block} (hf : ∀ block, (f block).bare = block.bare) :
    (s.modifyBlock b f).bare = s.bare := by
  simp only [bare, modifyBlock, map_modify hf]

/-- The scopes with the newest alias of a name in a block marked as used. -/
def mark (s : Scopes) (b : BlockId) (name : String) : Scopes :=
  s.modifyBlock b fun block => { block with aliases := markAlias name block.aliases }

theorem bare_mark : (s.mark b name).bare = s.bare := by
  refine bare_modifyBlock s b fun block => ?_
  simp only [Block.bare, map_bare_markAlias]

end Scopes

/-! ## Packages whose names are resolved -/

/-- The alias is in the table or under a name. -/
def Package.HasAlias (p : Package) (id : AliasId) : Prop :=
  id < p.aliases.size ∨ ∃ name, p.lookup? name = some (.typeAlias id)

/-- Every global has its value. -/
def Package.Valued (p : Package) : Prop := ∀ id, p.HasGlobal id → (p.global id).value ≠ none

/-- Every alias was resolved or has failed, and every global has its value. -/
structure Package.Resolved (p : Package) : Prop where
  aliases : ∀ id, p.HasAlias id → (∃ t, (p.typeAlias id).type = some t) ∨ id ∈ p.brokenAliases
  globals : p.Valued

namespace Check

/-! ## Views and output -/

/-- The part of the state that answers depend on. -/
def State.view (s : State) : State :=
  { s with scopes := s.scopes.bare, diags := #[], typings := #[], requests := #[], voidReads := 0 }

/-- What a step finds. -/
structure Output where
  diags : List Diagnostic := []
  typings : List Typing := []
  requests : List Request := []
  voidReads : Nat := 0

namespace Output

def append (a b : Output) : Output :=
  ⟨a.diags ++ b.diags, a.typings ++ b.typings, a.requests ++ b.requests, a.voidReads + b.voidReads⟩

instance : Append Output := ⟨append⟩

/-- A value that was computed with this output failed. -/
def failed (out : Output) (v : Value) : Bool :=
  v.type.isVoid && (0 < out.voidReads || out.diags.any (·.isError))

end Output

def State.put (s : State) (out : Output) : State :=
  { s with
    diags := s.diags ++ out.diags, typings := s.typings ++ out.typings
    requests := s.requests ++ out.requests, voidReads := s.voidReads + out.voidReads }

structure State.Adds (s : State) (out : Output) (s' : State) : Prop where
  diags : s'.diags.toList = s.diags.toList ++ out.diags
  typings : s'.typings.toList = s.typings.toList ++ out.typings
  requests : s'.requests.toList = s.requests.toList ++ out.requests
  voidReads : s'.voidReads = s.voidReads + out.voidReads

/-- The scopes, apart from marks, and the jumps of the function are the same. -/
structure State.Beside (s s' : State) : Prop where
  scopes : s'.scopes.bare = s.scopes.bare
  labels : s'.labels = s.labels
  gotos : s'.gotos = s.gotos

section States

variable {s s' s'' : State} {out out' : Output}

theorem State.Adds.refl (s : State) : s.Adds {} s := by constructor <;> simp

theorem State.adds_put (s : State) (out : Output) : s.Adds out (s.put out) := by
  constructor <;> simp [State.put]

theorem State.Adds.trans (h : s.Adds out s') (h' : s'.Adds out' s'') :
    s.Adds (out ++ out') s'' where
  diags := by rw [h'.diags, h.diags, List.append_assoc]; rfl
  typings := by rw [h'.typings, h.typings, List.append_assoc]; rfl
  requests := by rw [h'.requests, h.requests, List.append_assoc]; rfl
  voidReads := by rw [h'.voidReads, h.voidReads, Nat.add_assoc]; rfl

theorem State.Le.adds (h : s.Le s') : ∃ out, s.Adds out s' := by
  obtain ⟨diags, hdiags⟩ := h.diags
  obtain ⟨typings, htypings⟩ := h.typings
  obtain ⟨requests, hrequests⟩ := h.requests
  obtain ⟨voidReads, hreads⟩ := Nat.le.dest h.voidReads
  exact ⟨⟨diags, typings, requests, voidReads⟩, hdiags.symm, htypings.symm, hrequests.symm, hreads.symm⟩

theorem State.Adds.unique (h : s.Adds out s') (h' : s.Adds out' s') : out' = out := by
  cases out
  cases out'
  simpa [h.diags, h.typings, h.requests, h.voidReads] using And.intro h'.diags.symm
    (And.intro h'.typings.symm (And.intro h'.requests.symm h'.voidReads.symm))

theorem State.Beside.trans (h : s.Beside s') (h' : s'.Beside s'') : s.Beside s'' :=
  ⟨h'.scopes.trans h.scopes, h'.labels.trans h.labels, h'.gotos.trans h.gotos⟩

theorem State.view_eq_iff : s'.view = s.view ↔ s'.scopes.bare = s.scopes.bare ∧
    s'.labels = s.labels ∧ s'.gotos = s.gotos ∧ s'.aliasCache = s.aliasCache ∧
    s'.cyclicAliases = s.cyclicAliases ∧ s'.globalCache = s.globalCache ∧
    s'.cyclicGlobals = s.cyclicGlobals := by
  simp [State.view]

theorem State.beside_of_view (h : s'.view = s.view) : s.Beside s' :=
  have ⟨hscopes, hlabels, hgotos, _⟩ := view_eq_iff.mp h
  ⟨hscopes, hlabels, hgotos⟩

theorem State.lookup?_of_view (h : s'.view = s.view) (b : BlockId) (name : String) :
    s'.scopes.lookup? b name = s.scopes.lookup? b name := by
  rw [← Scopes.lookup?_bare, (beside_of_view h).scopes, Scopes.lookup?_bare]

theorem State.Beside.inUnsafe (h : s.Beside s') (b : BlockId) :
    s'.scopes.inUnsafe b = s.scopes.inUnsafe b := by
  rw [← Scopes.inUnsafe_bare, h.scopes, Scopes.inUnsafe_bare]

theorem State.view_scopes {scopes scopes' : Scopes} (h : s'.view = s.view)
    (hscopes : scopes'.bare = scopes.bare) :
    { s' with scopes := scopes' }.view = { s with scopes }.view :=
  view_eq_iff.mpr ⟨hscopes, (view_eq_iff.mp h).2⟩

theorem State.Adds.failed (h : s.Adds out s') (v : Value) :
    (v.type.isVoid && (s.voidReads < s'.voidReads ||
      (s'.diags.extract s.diags.size s'.diags.size).any (·.isError))) = out.failed v := by
  have hnew : (s'.diags.extract s.diags.size s'.diags.size).toList = out.diags := by
    rw [Array.toList_extract, ← Array.length_toList, ← Array.length_toList, h.diags]
    simp [List.extract]
  have hreads : s.voidReads < s'.voidReads ↔ 0 < out.voidReads := by
    rw [h.voidReads]
    omega
  rw [Output.failed, ← Array.any_toList, hnew]
  simp only [hreads]

theorem State.Adds.reports (h : s.Adds out s') :
    s.diags.size < s'.diags.size ↔ out.diags ≠ [] := by
  have hsize := congrArg List.length h.diags
  simp only [Array.length_toList, List.length_append] at hsize
  rw [hsize, ← List.length_pos_iff]
  omega

end States

/-! ## Added diagnostics -/

/-- The diagnostics that were added on the way from `s` to `s'`. -/
def State.added (s s' : State) : List Diagnostic := s'.diags.toList.drop s.diags.size

section Added

variable {s s1 s2 : State} {d : Diagnostic}

theorem State.added_trans (h : s.Le s1) (h' : s1.Le s2) :
    s.added s2 = s.added s1 ++ s1.added s2 := by
  obtain ⟨l, hl⟩ := h.diags
  obtain ⟨l', hl'⟩ := h'.diags
  simp only [added, ← hl', ← hl, ← Array.length_toList, List.append_assoc, List.drop_left]
  rw [← List.append_assoc, List.drop_left]

theorem State.mem_added_left (h : s1.Le s2) (hd : d ∈ s.added s1) : d ∈ s.added s2 := by
  obtain ⟨l, hl⟩ := h.diags
  rw [added, ← hl, List.drop_append]
  exact List.mem_append_left _ hd

theorem State.mem_added_right (h : s.Le s1) (h' : s1.Le s2) (hd : d ∈ s1.added s2) :
    d ∈ s.added s2 := by
  rw [added_trans h h']
  exact List.mem_append_right _ hd

theorem mem_added_report {env : Env} {a : Unit} {q : Problem} {span : Span}
    (h : (report q span env).run s = some (a, s1)) : ⟨q, span⟩ ∈ s.added s1 := by
  cases h
  simp [State.added, ← Array.length_toList]

theorem State.Adds.added {out : Output} (h : s.Adds out s1) : s.added s1 = out.diags := by
  rw [State.added, h.diags, ← Array.length_toList, List.drop_left]

end Added

/-! ## The judgement -/

/-- What is remembered of aliases and globals. -/
structure Memory where
  aliasCache : List (AliasId × Option Ty)
  cyclicAliases : List AliasId
  globalCache : List (GlobalId × Value)
  cyclicGlobals : List GlobalId

def State.memory (s : State) : Memory :=
  ⟨s.aliasCache, s.cyclicAliases, s.globalCache, s.cyclicGlobals⟩

def State.learn (s : State) (f : Memory → Memory) : State :=
  { s with
    aliasCache := (f s.memory).aliasCache, cyclicAliases := (f s.memory).cyclicAliases
    globalCache := (f s.memory).globalCache, cyclicGlobals := (f s.memory).cyclicGlobals }

/-- Related states remember the same. They stay related when both learn the same
or get output, and when the diagnostics in between are dropped. -/
structure Viewing (V : State → State → Prop) : Prop where
  memory : ∀ {s t}, V s t → t.memory = s.memory
  learn : ∀ {s t}, V s t → ∀ f, V (s.learn f) (t.learn f)
  output : ∀ {s t}, V s t → ∀ {f : State → State}, (∀ s, (f s).view = s.view) → V (f s) (f t)
  quiet : ∀ {s t s' t'}, V s t → V s' t' → V { s' with diags := s.diags } { t' with diags := t.diags }

theorem viewing_eq : Viewing Eq where
  memory h := h ▸ rfl
  learn h _ := h ▸ rfl
  output h _ _ := h ▸ rfl
  quiet h h' := by rw [h, h']

theorem viewing_view : Viewing fun s t => t.view = s.view where
  memory h := by simp [State.memory, State.view_eq_iff.mp h]
  learn h f := by
    have hview := State.view_eq_iff.mp h
    refine State.view_eq_iff.mpr ⟨hview.1, hview.2.1, hview.2.2.1, ?_⟩
    simp [State.learn, State.memory, hview]
  output h _ hf := (hf _).trans (h.trans (hf _).symm)
  quiet _ h := h

/-- What `x` answers, `y` answers from related states, with the same output. -/
def Step.Mirrors (V : State → State → Prop) (x y : Step α) : Prop :=
  ∀ ⦃s a s'⦄, x.run s = some (a, s') → ∀ ⦃t⦄, V s t →
    ∃ t', y.run t = some (a, t') ∧ V s' t' ∧ ∃ out, s.Adds out s' ∧ t.Adds out t'

section Rules

variable {V : State → State → Prop} {env env' : Env}

theorem Step.Mirrors.pure (a : α) : ((Pure.pure a : Check α) env).Mirrors V ((Pure.pure a : Check α) env') := by
  intro s _ _ h t hst
  cases h
  exact ⟨t, rfl, hst, {}, .refl s, .refl t⟩

theorem Step.Mirrors.bind {x : Check α} {f : α → Check β} (hx : (x env).Mirrors V (x env'))
    (hf : ∀ ⦃a s s'⦄, (x env).run s = some (a, s') → (f a env).Mirrors V (f a env')) : ((x >>= f) env).Mirrors V ((x >>= f) env') := by
  intro s b s' h t hst
  obtain ⟨a, s1, hxa, hfa⟩ := run_bind.mp h
  obtain ⟨t1, hxt, hst1, out, hs, ht⟩ := hx hxa hst
  obtain ⟨t', hft, hst', out', hs', ht'⟩ := hf hxa hfa hst1
  exact ⟨t', run_bind.mpr ⟨a, t1, hxt, hft⟩, hst', out ++ out', hs.trans hs', ht.trans ht'⟩

/-- What follows depends on what was found in between, and on nothing else of
the states before and after. -/
theorem Step.Mirrors.since {x : Check α} {k : State → State → α → Check β}
    {g : Output → α → Check β} (hx : (x env).Mirrors V (x env'))
    (hk : ∀ {s out s'} a, s.Adds out s' → k s s' a = g out a)
    (hg : ∀ out ⦃a s s'⦄, (x env).run s = some (a, s') → (g out a env).Mirrors V (g out a env')) :
    ((do
      let s ← state
      let a ← x
      let s' ← state
      k s s' a : Check β) env).Mirrors V ((do
      let s ← state
      let a ← x
      let s' ← state
      k s s' a : Check β) env') := by
  intro s b s' h t hst
  obtain ⟨_, _, ⟨⟩, h⟩ := run_bind.mp h
  obtain ⟨a, s1, hxa, h⟩ := run_bind.mp h
  obtain ⟨_, _, ⟨⟩, hka⟩ := run_bind.mp h
  obtain ⟨t1, hxt, hst1, out, hs, ht⟩ := hx hxa hst
  rw [hk a hs] at hka
  obtain ⟨t', hkt, hst', out', hs', ht'⟩ := hg out hxa hka hst1
  rw [← hk a ht] at hkt
  exact ⟨t', run_bind.mpr ⟨t, t, rfl, run_bind.mpr ⟨a, t1, hxt, run_bind.mpr ⟨t1, t1, rfl, hkt⟩⟩⟩, hst',
    out ++ out', hs.trans hs', ht.trans ht'⟩

variable (hV : Viewing V)

include hV

theorem mirrors_output {f : State → State} {le : ∀ s : State, s.Le (f s)} (out : Output)
    (hput : ∀ s : State, f s = s.put out) : (update f le env).Mirrors V (update f le env') := by
  intro s _ _ h t hst
  cases h
  refine ⟨f t, rfl, hV.output hst fun s => by rw [hput]; rfl, out, ?_, ?_⟩
  · exact hput s ▸ s.adds_put out
  · exact hput t ▸ t.adds_put out

theorem mirrors_countVoidRead (v : Value) :
    (countVoidRead v env).Mirrors V (countVoidRead v env') := by
  unfold countVoidRead
  split
  · exact mirrors_output hV { voidReads := 1 } fun s => by simp [State.put]
  · exact .pure ()

theorem Viewing.heard {s t s' t' : State} {out : Output} (h : V s t) (h' : V s' t')
    (hs : s.Adds out s') (ht : t.Adds out t') (b : Bool) :
    V (s'.heard s b) (t'.heard t b) ∧ ∃ out, s.Adds out (s'.heard s b) ∧ t.Adds out (t'.heard t b) := by
  cases b with
  | true => exact ⟨h', out, hs, ht⟩
  | false =>
    refine ⟨hV.quiet h h', { out with diags := [] }, ?_, ?_⟩
    · exact { hs with diags := (List.append_nil _).symm }
    · exact { ht with diags := (List.append_nil _).symm }

theorem Step.Mirrors.quietly {x : Check α} (hx : (x env).Mirrors V (x env')) :
    (quietly x env).Mirrors V (quietly x env') := by
  intro s a s' h t hst
  obtain ⟨s1, hrun, rfl⟩ := run_quietly.mp h
  obtain ⟨t1, hxt, hst1, out, hs, ht⟩ := hx hrun hst
  exact ⟨_, run_quietly.mpr ⟨t1, hxt, rfl⟩, hV.heard hst hst1 hs ht false⟩

end Rules

/-! ## Names -/

section Names

variable {V : State → State → Prop} (hV : Viewing V) {p : Package} {o : Options} {c c' : Context}
  {resolveIn resolveIn' : Context → Syntax.TypeExpr → Step (Option Ty)}
  {evalIn evalIn' : Context → Syntax.Expr → Option Ty → Step Value}

include hV

theorem mirrors_aliasType {id : AliasId} (hpath : c'.aliasPath = c.aliasPath)
    (hresolve : id ∉ c.aliasPath →
      (resolveIn (c.openAlias id) (p.typeAlias id).decl.target).Mirrors V
        (resolveIn' (c'.openAlias id) (p.typeAlias id).decl.target)) :
    (aliasType id ⟨p, o, c, resolveIn, evalIn⟩).Mirrors V
      (aliasType id ⟨p, o, c', resolveIn', evalIn'⟩) := by
  intro s a s' hrun t hst
  have hcache : t.aliasCache = s.aliasCache := congrArg Memory.aliasCache (hV.memory hst)
  have hcyclic : t.cyclicAliases = s.cyclicAliases := congrArg Memory.cyclicAliases (hV.memory hst)
  have same {a : Option Ty} (h : AliasRun ⟨p, o, c', resolveIn', evalIn'⟩ id t a t) :
      ∃ t', (aliasType id ⟨p, o, c', resolveIn', evalIn'⟩).run t = some (a, t') ∧ V s t' ∧
        ∃ out, s.Adds out s ∧ t.Adds out t' := ⟨t, h.run, hst, {}, .refl s, .refl t⟩
  have fresh (h : Fresh p id s) : Fresh p id t :=
    ⟨h.type, h.unbroken, hcyclic ▸ h.acyclic, hcache ▸ h.unanswered⟩
  cases aliasRun_of_run hrun with
  | typed h => exact same (.typed h)
  | broken htype h => exact same (.broken htype h)
  | cyclic htype h => exact same (.cyclic htype (hcyclic ▸ h))
  | answered htype hunbroken hacyclic h =>
    exact same (.answered htype hunbroken (hcyclic ▸ hacyclic) (hcache ▸ h))
  | cycle hfresh hmem =>
    refine ⟨_, (AliasRun.cycle (fresh hfresh) (hpath ▸ hmem)).run, ?_,
      { diags := [⟨.cycle (p.typeAlias id).name, (p.typeAlias id).decl.name.span⟩] }, ?_, ?_⟩
    · rw [hpath]
      exact hV.output (hV.learn hst fun m => { m with
        cyclicAliases := cycleMembers c.aliasPath id ++ m.cyclicAliases }) (f := fun s => { s with
        diags := s.diags.push ⟨.cycle (p.typeAlias id).name, (p.typeAlias id).decl.name.span⟩ })
        fun _ => rfl
    all_goals constructor <;> simp [State.closeCycle]
  | @opened r s1 hfresh hmem htarget =>
    obtain ⟨t1, hrun', hst1, out, hs, ht⟩ := hresolve hmem htarget hst
    have hanswer : t1.answer id r = s1.answer id r := by
      rw [State.answer, State.answer, show t1.cyclicAliases = s1.cyclicAliases from
        congrArg Memory.cyclicAliases (hV.memory hst1)]
    refine ⟨_, hanswer ▸ (AliasRun.opened (fresh hfresh) (hpath ▸ hmem) hrun').run,
      hV.learn hst1 fun m => { m with aliasCache := (id, s1.answer id r) :: m.aliasCache }, out, ?_, ?_⟩
    · exact { hs with }
    · exact { ht with }

theorem mirrors_globalValue {id : GlobalId} (hpath : c'.globalPath = c.globalPath)
    (hreport : c'.reportGlobals = c.reportGlobals)
    (hcompute : id ∉ c.globalPath →
      (computeGlobal (p.global id).decl ⟨p, o, c.openGlobal id, resolveIn, evalIn⟩).Mirrors V
        (computeGlobal (p.global id).decl ⟨p, o, c'.openGlobal id, resolveIn', evalIn'⟩)) :
    (globalValue id ⟨p, o, c, resolveIn, evalIn⟩).Mirrors V
      (globalValue id ⟨p, o, c', resolveIn', evalIn'⟩) := by
  intro s a s' hrun t hst
  have hcache : t.globalCache = s.globalCache := congrArg Memory.globalCache (hV.memory hst)
  have hcyclic : t.cyclicGlobals = s.cyclicGlobals := congrArg Memory.cyclicGlobals (hV.memory hst)
  have same {a : Value} (h : GlobalRun ⟨p, o, c', resolveIn', evalIn'⟩ id t a t) :
      ∃ t', (globalValue id ⟨p, o, c', resolveIn', evalIn'⟩).run t = some (a, t') ∧ V s t' ∧
        ∃ out, s.Adds out s ∧ t.Adds out t' := ⟨t, h.run, hst, {}, .refl s, .refl t⟩
  have fresh (h : FreshGlobal p id s) : FreshGlobal p id t :=
    ⟨h.value, hcyclic ▸ h.acyclic, hcache ▸ h.unanswered⟩
  cases globalRun_of_run hrun with
  | valued h => exact same (.valued h)
  | cyclic hvalue h => exact same (.cyclic hvalue (hcyclic ▸ h))
  | answered hvalue hacyclic h => exact same (.answered hvalue (hcyclic ▸ hacyclic) (hcache ▸ h))
  | cycle hfresh hmem =>
    refine ⟨_, (GlobalRun.cycle (fresh hfresh) (hpath ▸ hmem)).run, ?_,
      { diags := [⟨.cycle (p.global id).name, (p.global id).decl.name.span⟩] }, ?_, ?_⟩
    · rw [hpath]
      exact hV.output (hV.learn hst fun m => { m with
        cyclicGlobals := cycleMembers c.globalPath id ++ m.cyclicGlobals }) (f := fun s => { s with
        diags := s.diags.push ⟨.cycle (p.global id).name, (p.global id).decl.name.span⟩ })
        fun _ => rfl
    all_goals constructor <;> simp [State.closeGlobals]
  | @computed v s1 hfresh hmem hvalue =>
    obtain ⟨t1, hrun', hst1, out, hs, ht⟩ := hcompute hmem hvalue hst
    have hlater : t1.cyclicGlobals = s1.cyclicGlobals :=
      congrArg Memory.cyclicGlobals (hV.memory hst1)
    obtain ⟨hheard, out, hs, ht⟩ := hV.heard hst hst1 hs ht c.reportGlobals
    rw [← hreport] at hheard hs ht
    rw [← hlater, ← hreport]
    refine ⟨_, (GlobalRun.computed (fresh hfresh) (hpath ▸ hmem) hrun').run,
      hV.learn hheard fun m => { m with globalCache :=
        (id, if m.cyclicGlobals.contains id then .void else v) :: m.globalCache }, out, ?_, ?_⟩
    · exact { hs with }
    · exact { ht with }

end Names

end Check

end JaneCheck
