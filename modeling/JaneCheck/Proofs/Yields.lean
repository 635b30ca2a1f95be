import JaneCheck.Proofs.Traces

/-!
# What a check yields

What a check answers depends on the view of the state alone. If nothing new is
remembered of aliases and globals, then the view stays. `Yields env s x a out`
says that from every state of the view of `s` the check `x` answers `a`, adds
`out` and leaves the view. Yields are put together without the states between
them. So a part of one check is found again in another, where it stands at
another place and has more levels below it.

`Passes` is a yield without an error. What a run goes through passes, if the run
is `Passed`; in a package whose names are resolved every run without an error is.
-/

namespace JaneCheck.Check

open Syntax (Expr)

/-! ## The judgement -/

/-- From every state of the view of `s` the check answers `a`, adds `out` and
leaves the view. -/
def Yields (env : Env) (s : State) (x : Check α) (a : α) (out : Output) : Prop :=
  ∀ ⦃t⦄, t.view = s.view → ∃ t', (x env).run t = some (a, t') ∧ t.Adds out t' ∧ t'.view = s.view

@[simp] theorem Output.append_empty (out : Output) : out ++ {} = out := by
  show Output.append out {} = out
  simp [Output.append]

@[simp] theorem Output.empty_append (out : Output) : {} ++ out = out := by
  show Output.append {} out = out
  simp [Output.append]

variable {e : Expr} {hint : Option Ty} {v : Value}

@[simp] theorem Output.requests_append (out out' : Output) :
    (out ++ out').requests = out.requests ++ out'.requests := rfl

section Rules

variable {env : Env} {s t : State} {out out' : Output}

theorem Yields.congr {x : Check α} {a : α} (h : Yields env s x a out) (hview : t.view = s.view) :
    Yields env t x a out := by
  intro u hu
  rw [hview] at hu ⊢
  exact h hu

theorem Yields.pure (a : α) : Yields env s (pure a) a {} :=
  fun t ht => ⟨t, rfl, .refl t, ht⟩

theorem Yields.bind {x : Check α} {f : α → Check β} {a : α} {b : β} (hx : Yields env s x a out)
    (hf : Yields env s (f a) b out') : Yields env s (x >>= f) b (out ++ out') := by
  intro t ht
  obtain ⟨t1, hrun, hadds, hview⟩ := hx ht
  obtain ⟨t', hrun', hadds', hview'⟩ := hf hview
  exact ⟨t', run_bind.mpr ⟨a, t1, hrun, hrun'⟩, hadds.trans hadds', hview'⟩

theorem Yields.package {f : Package → Check α} {a : α} (h : Yields env s (f env.package) a out) :
    Yields env s (package >>= f) a out := h

theorem Yields.context {f : Context → Check α} {a : α} (h : Yields env s (f env.context) a out) :
    Yields env s (context >>= f) a out := h

theorem Yields.state {f : State → Check α} {a : α}
    (h : ∀ t : State, t.view = s.view → Yields env s (f t) a out) :
    Yields env s (state >>= f) a out :=
  fun t ht => h t ht ht

theorem yields_update {f : State → State} {le : ∀ s : State, s.Le (f s)} (out : Output)
    (hadds : ∀ s : State, s.Adds out (f s))
    (hview : ∀ s, (f s).view = s.view) : Yields env s (update f le) () out :=
  fun t ht => ⟨f t, rfl, hadds t, (hview t).trans ht⟩

theorem yields_annotate (env : Env) (s : State) (span : Span) (v : Value) :
    ∃ out, out.diags = [] ∧ out.requests = [] ∧ Yields env s (annotate span v) () out := by
  unfold annotate
  split
  · exact ⟨_, rfl, rfl, .pure ()⟩
  · exact ⟨{ typings := [⟨span, v.type, v.constant⟩] }, rfl, rfl, yields_update _ (fun _ => by constructor <;> simp) fun _ => rfl⟩

theorem Yields.evalChecked (h : Yields env s (eval e hint) v out) :
    Yields env s (evalChecked e hint) (if out.failed v then none else some v) out := by
  intro t ht
  obtain ⟨t', hrun, hadds, hview⟩ := h ht
  exact ⟨t', run_evalChecked.mpr ⟨v, hrun, by rw [hadds.failed]⟩, hadds, hview⟩

end Rules

/-! ## Answers without an error -/

/-- Nothing in the output is an error. -/
def Output.Clean (out : Output) : Prop := ∀ d ∈ out.diags, d.isError = false

theorem Output.Clean.append {out out' : Output} (h : out.Clean) (h' : out'.Clean) :
    (out ++ out').Clean :=
  fun d hd => (List.mem_append.mp hd).elim (h d) (h' d)

theorem Output.clean_of_nil {out : Output} (h : out.diags = []) : out.Clean := by
  simp [Clean, h]

/-- From the view of `s` the check answers `a`, and no error is among what it adds. -/
def Passes (env : Env) (s : State) (x : Check α) (a : α) : Prop :=
  ∃ out : Output, out.Clean ∧ Yields env s x a out

section Passing

variable {env : Env} {s t : State}

theorem Passes.congr {x : Check α} {a : α} (h : Passes env s x a) (hview : t.view = s.view) :
    Passes env t x a :=
  have ⟨out, hclean, hyields⟩ := h
  ⟨out, hclean, hyields.congr hview⟩

theorem Passes.pure (a : α) : Passes env s (pure a) a :=
  ⟨{}, Output.clean_of_nil rfl, .pure a⟩

theorem Passes.bind {x : Check α} {f : α → Check β} {a : α} {b : β} (hx : Passes env s x a)
    (hf : Passes env s (f a) b) : Passes env s (x >>= f) b :=
  have ⟨out, hclean, hyields⟩ := hx
  have ⟨out', hclean', hyields'⟩ := hf
  ⟨out ++ out', hclean.append hclean', hyields.bind hyields'⟩

theorem Passes.forM {as : List α} {f : α → Check Unit} (h : ∀ a ∈ as, Passes env s (f a) ()) :
    Passes env s (as.forM f) () := by
  induction as with
  | nil => exact .pure ()
  | cons a as ih =>
    exact .bind (h a List.mem_cons_self) (ih fun b hb => h b (List.mem_cons_of_mem a hb))

theorem Passes.evalChecked {b : β} {f : Option Value → Check β} (h : Passes env s (eval e hint) v)
    (hnone : Passes env s (f none) b) (hsome : Passes env s (f (some v)) b) :
    Passes env s (evalChecked e hint >>= f) b := by
  obtain ⟨out, hclean, hyields⟩ := h
  refine .bind ⟨out, hclean, hyields.evalChecked⟩ ?_
  split
  · exact hnone
  · exact hsome

end Passing

/-! ## Runs -/

/-- What `s'` remembers of aliases and globals, `s` remembers too. -/
structure State.Recalls (s s' : State) : Prop where
  aliasCache : s'.aliasCache <:+ s.aliasCache
  cyclicAliases : s'.cyclicAliases <:+ s.cyclicAliases
  globalCache : s'.globalCache <:+ s.globalCache
  cyclicGlobals : s'.cyclicGlobals <:+ s.cyclicGlobals

/-- On the way from `s` to `s'` no error was added and nothing remembered. -/
structure State.Passed (s s' : State) : Prop where
  clean : ∀ d ∈ s.added s', d.isError = false
  recalls : s.Recalls s'

section States

variable {s0 s s' : State} {out : Output}

theorem State.Recalls.since (h : s0.Recalls s') (hle : s0.Le s) : s.Recalls s' where
  aliasCache := h.aliasCache.trans hle.aliasCache
  cyclicAliases := h.cyclicAliases.trans hle.cyclicAliases
  globalCache := h.globalCache.trans hle.globalCache
  cyclicGlobals := h.cyclicGlobals.trans hle.cyclicGlobals

theorem State.Recalls.until (h : s0.Recalls s') (hle : s.Le s') : s0.Recalls s where
  aliasCache := hle.aliasCache.trans h.aliasCache
  cyclicAliases := hle.cyclicAliases.trans h.cyclicAliases
  globalCache := hle.globalCache.trans h.globalCache
  cyclicGlobals := hle.cyclicGlobals.trans h.cyclicGlobals

theorem State.recalls_of_view (h : s'.view = s.view) : s.Recalls s' := by
  obtain ⟨-, -, -, haliases, hcyclic, hglobals, hcyclic'⟩ := State.view_eq_iff.mp h
  constructor <;> simp [haliases, hcyclic, hglobals, hcyclic']

theorem State.view_of_recalls (hbeside : s.Beside s') (hle : s.Le s') (h : s.Recalls s') :
    s'.view = s.view :=
  State.view_eq_iff.mpr ⟨hbeside.scopes, hbeside.labels, hbeside.gotos,
    h.aliasCache.eq_of_length_le hle.aliasCache.length_le,
    h.cyclicAliases.eq_of_length_le hle.cyclicAliases.length_le,
    h.globalCache.eq_of_length_le hle.globalCache.length_le,
    h.cyclicGlobals.eq_of_length_le hle.cyclicGlobals.length_le⟩

theorem State.Adds.passed (h : s.Adds out s') (hclean : out.Clean) (hview : s'.view = s.view) :
    s.Passed s' :=
  ⟨fun d hd => hclean d (h.added ▸ hd), recalls_of_view hview⟩

end States

/-- All passed since `s0`. -/
def Guard.passed (s0 : State) : Guard where
  holds s := s0.Passed s
  of_le h hs := ⟨fun d hd => hs.clean d (State.mem_added_left h hd), hs.recalls.until h⟩

section Passed

variable {p : Package} {o : Options} {n m : Nat} {c : Context} {s0 s s' : State} {out : Output}
  {x : Check α} {R : α → Prop} {a : α}

/-- A check yields what a run answers and adds that remembers nothing. -/
theorem yields_of_run (hx : AsksFor (.any p) c x R) (h : run p o n c x s = some (a, s'))
    (hrecalls : s.Recalls s') :
    s'.view = s.view ∧ ∃ out, s.Adds out s' ∧ Yields (envAt p o n c) s x a out := by
  obtain ⟨out, hadds, hreplay⟩ := hx.replays h
  have hview := State.view_of_recalls (beside_of_asks hx h) ((x (envAt p o n c)).le h) hrecalls
  refine ⟨hview, out, hadds, fun t ht => ?_⟩
  obtain ⟨t', hrun, ht', hsame⟩ := hreplay t ht
  exact ⟨t', hrun, ht', hsame.trans hview⟩

theorem recalls_of_resolved (hp : p.Resolved) (hx : AsksFor (.any p) c x R)
    (h : run p o n c x s = some (a, s')) : s.Recalls s' :=
  State.recalls_of_view (hx.view_eq hp h)

theorem Yields.deeper (hx : AsksFor (.any p) c x R) (h : Yields (envAt p o n c) s x a out)
    (hle : n ≤ m) : Yields (envAt p o m c) s x a out := by
  intro t ht
  obtain ⟨t', hrun, ht'⟩ := h ht
  exact ⟨t', hx.below_of_extends (extends_at hle) hrun, ht'⟩

theorem Passes.deeper (hx : AsksFor (.any p) c x R) (h : Passes (envAt p o n c) s x a)
    (hle : n ≤ m) : Passes (envAt p o m c) s x a :=
  have ⟨out, hclean, hyields⟩ := h
  ⟨out, hclean, hyields.deeper hx hle⟩

theorem Yields.evalAny (h : Yields (envAt p o n c) s (exprValue e hint) v out) (hclean : out.Clean) :
    ∃ out' : Output, out'.Clean ∧ out'.requests = out.requests ∧
      Yields (envAt p o (n + 1) c) s (evalAny e hint) v out' := by
  obtain ⟨out1, hdiags, hrequests, hyields⟩ :=
    yields_annotate (envAt p o n c) s e.span v
  refine ⟨out ++ (out1 ++ {}), ?_, by simp [hrequests], h.bind (hyields.bind (.pure v))⟩
  rw [Output.append_empty]
  exact hclean.append (Output.clean_of_nil hdiags)

theorem Passes.evalAny (h : Passes (envAt p o n c) s (exprValue e hint) v) :
    Passes (envAt p o (n + 1) c) s (evalAny e hint) v :=
  have ⟨_, hclean, hyields⟩ := h
  have ⟨out, hclean', _, hyields'⟩ := hyields.evalAny hclean
  ⟨out, hclean', hyields'⟩

theorem leads_passes (hx : AsksFor (.any p) c x R) (hle : s0.Le s) :
    Leads (.passed s0) (envAt p o n c) s x fun a s' =>
      s'.view = s.view ∧ Passes (envAt p o n c) s x a := by
  intro a s' hrun hpassed
  have hle' : s.Le s' := (x (envAt p o n c)).le hrun
  obtain ⟨hview, out, hadds, hyields⟩ := yields_of_run hx hrun (hpassed.recalls.since hle)
  refine ⟨hview, out, fun d hd => hpassed.clean d ?_, hyields⟩
  rw [State.added_trans hle hle', hadds.added]
  exact List.mem_append_right _ hd

theorem leads_forM {as : List β} {f : β → Check Unit} {R : Unit → Prop}
    (hf : ∀ a ∈ as, AsksFor (.any p) c (f a) R) (hle : s0.Le s) :
    Leads (.passed s0) (envAt p o n c) s (as.forM f) fun _ s' =>
      s'.view = s.view ∧ ∀ a ∈ as, Passes (envAt p o n c) s (f a) () := by
  induction as generalizing s with
  | nil => exact .pure ⟨rfl, by simp⟩
  | cons a as ih =>
    refine .bind (leads_passes (hf a List.mem_cons_self) hle) fun _ s1 hrun ha => ?_
    have hle1 : s0.Le s1 := hle.trans ((f a (envAt p o n c)).le hrun)
    refine (ih (fun b hb => hf b (List.mem_cons_of_mem a hb)) hle1).mono fun _ s' h => ?_
    refine ⟨h.1.trans ha.1, fun b hb => ?_⟩
    rcases List.mem_cons.mp hb with rfl | hb
    · exact ha.2
    · exact (h.2 b hb).congr ha.1.symm

theorem Passes.exists_run {env : Env} (h : Passes env s x a) :
    ∃ s', (x env).run s = some (a, s') ∧ s.Passed s' := by
  obtain ⟨out, hclean, hyields⟩ := h
  obtain ⟨s', hrun, hadds, hview⟩ := hyields rfl
  exact ⟨s', hrun, hadds.passed hclean hview⟩

end Passed

end JaneCheck.Check
