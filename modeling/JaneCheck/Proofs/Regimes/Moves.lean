import JaneCheck.Proofs.Regimes.Definitions

/-!
# What checks do to the state

The checks of statements and definitions leave traces, let the blocks grow at the
current one, and note labels and gotos. `Moves` says what is left of this when some of
it is not admitted: without variables a run is a trace of effects, without labels the
marks and gotos stay, and without jumps no problem of a jump is raised. No demand is
made on the types.
-/

namespace JaneCheck.Check

open Demand (coveredContext_lax coveredState_lax covers_lax)

variable {p : Package} {o : Options} {declares labels jumps : Prop} {c : Context} {s s' : State}

/-- What a check does from `s` to `s'` in the context `c`. -/
structure Moves (p : Package) (o : Options) (declares labels jumps : Prop) (c : Context)
    (s s' : State) : Prop where
  grows : s.scopes.Spreads c.block s'.scopes
  trace : ¬declares → Trace p o c.reportGlobals s s'
  marks : ¬labels → s'.marks = s.marks ∧ s'.gotos = s.gotos
  raises : s.Raises (fun q => q.ofJump = false ∨ jumps) s'

theorem moves_blocks {blocks : Array Scopes.Block}
    (h : s.scopes.Spreads c.block { s.scopes with blocks }) :
    Moves p o declares labels jumps c s { s with scopes := { s.scopes with blocks } } :=
  ⟨h, fun _ => .step (.blocks _), fun _ => ⟨rfl, rfl⟩, State.raises_of_diags rfl⟩

theorem moves_asked {x : Check α} {R : α → Prop} {n : Nat} {a : α} (hx : AsksFor (.any p) c x R)
    (h : run p o n c x s = some (a, s')) : Moves p o declares labels jumps c s s' := by
  have hbeside := beside_of_asks hx h
  refine ⟨Scopes.spreads_of_bare hbeside.scopes, fun _ => hx.traces h, fun _ => ⟨?_, hbeside.gotos⟩,
    fun d hd => .inl (hx.jumpFree h d hd)⟩
  rw [State.marks, hbeside.labels]
  rfl

variable (p o declares labels jumps)

/-- Checks may begin in every state, and do what is admitted. -/
def moving : Regime p o where
  toRealm := .any p
  guard := .any
  starts _ _ := True
  course := Moves p o declares labels jumps
  refl _ := ⟨Scopes.spreads_of_bare rfl, fun _ => .refl _, fun _ => ⟨rfl, rfl⟩,
    State.raises_of_diags rfl⟩
  trans h h' hle hle' :=
    { grows := h.grows.trans h'.grows
      trace := fun hd => .trans (h.trace hd) (h'.trace hd)
      marks := fun hl =>
        ⟨(h'.marks hl).1.trans (h.marks hl).1, (h'.marks hl).2.trans (h.marks hl).2⟩
      raises := h.raises.trans h'.raises hle hle' }
  next _ _ := trivial
  declares := declares
  labels := labels
  jumps := jumps
  admits _ := trivial
  allows _ := allows_any
  known _ := coveredState_lax _
  asked h _ a s' hrun _ := by
    refine ⟨moves_asked h hrun, (h.sound (fun _ _ _ _ _ _ _ _ => ?_) (fun _ _ _ _ _ _ _ _ _ => ?_)
      (coveredContext_lax _) (coveredState_lax _) hrun fun _ _ => trivial).2⟩
    · exact ⟨coveredState_lax _, fun _ _ => covers_lax _, nofun⟩
    · exact ⟨coveredState_lax _, covers_lax _⟩
  quiet hfield _ u s' hrun _ := by
    obtain ⟨s1, hresolve, rfl⟩ := run_quietly.mp hrun
    have hmoves : Moves p o declares labels jumps _ _ s1 :=
      moves_asked (asks_resolveOrVoid trivial) hresolve
    refine ⟨⟨hmoves.grows, fun hd => ?_, hmoves.marks, State.raises_of_diags rfl⟩, covers_lax _⟩
    exact .template (.field rfl hfield hresolve) (hmoves.trace hd)
  report _ hq _ := ⟨Scopes.spreads_of_bare rfl, fun _ => .step (.report (by simp)),
    fun _ => ⟨rfl, rfl⟩, State.raises_push rfl hq⟩
  mark _ hmarks _ _ := ⟨Scopes.spreads_of_bare rfl, fun _ => .step (.jumps _ _),
    hmarks.resolve_left, State.raises_of_diags rfl⟩
  record _ hb := moves_blocks (hb ▸ Scopes.spreads_modifyBlock fun block =>
    ⟨⟨rfl, rfl, rfl, List.suffix_rfl, List.suffix_rfl, List.suffix_cons _ _⟩, rfl, rfl⟩)
  addAlias _ hb hfree _ := moves_blocks (hb ▸ Scopes.spreads_addAlias hfree.1 hfree.2)
  declare hd _ hb h _ :=
    ⟨hb ▸ Scopes.spreads_declare h, fun hno => absurd hd hno, fun _ => ⟨rfl, rfl⟩,
      State.raises_of_diags rfl⟩
  within {c c' s} hblock hreport _ _ := ⟨trivial, fun s' h =>
    ⟨hblock ▸ h.grows, fun hd => hreport ▸ h.trace hd, h.marks, h.raises⟩⟩
  enter {c s} isUnsafe _ := ⟨trivial, fun s' h =>
    ⟨h.grows.enter, fun hd => .trans (.step (.blocks _)) (h.trace hd), h.marks, h.raises⟩⟩

/-- Checks that declare no variable. -/
abbrev tracing : Regime p o := moving p o False True True

/-- Checks that add names and blocks at the current block. -/
abbrev confining : Regime p o := moving p o True True True

/-- Checks that add no labels and gotos. -/
abbrev staying : Regime p o := moving p o True False True

variable {p o declares labels jumps}

theorem moving_of_asks {x : Check α} {R : Context → α → Prop}
    (h : ∀ c, AsksFor (.any p) c x (R c)) :
    (moving p o declares labels jumps).Obeys x fun _ => True :=
  fun _ c _ _ _ _ hrun _ => ⟨moves_asked (h c) hrun, trivial⟩

theorem within_moving (x : Syntax.Stmt) : x.Within (moving p o declares labels jumps).span :=
  x.within_of_forall fun _ => trivial

end JaneCheck.Check
