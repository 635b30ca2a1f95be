import JaneCheck.Proofs.Compounds
import JaneCheck.Proofs.Runs

/-!
# Where a failure is lost

Resolution of declarations reports why it fails, with one exception: an array
size whose value is void has no size, and whoever computed the value may have
done so quietly. `Loses` says of a size that its computation fails, or makes an
alias fail, without an error. `Blame` says that a type expression has such a
size in it or names an alias that failed before.

`accounts_resolveAt` is the statement that there is no other way: where no error
is reported, a type expression without a type is to blame itself or has opened
an alias whose target is.
-/

namespace JaneCheck

open Syntax (Expr Ident TypeExpr)

/-- An alias whose target is still to be resolved. -/
structure Package.Pending (p : Package) (id : AliasId) : Prop where
  known : id < p.aliases.size
  type : (p.typeAlias id).type = none
  unbroken : id ∉ p.brokenAliases

namespace Check

/-! ## States and contexts -/

/-- No error was reported at a span of `P`. -/
def State.Clean (P : Span → Prop) (s : State) : Prop :=
  ∀ d ∈ s.diags.toList, P d.span → d.isError = false

/-- No error is reported. -/
def Guard.clean (P : Span → Prop) : Guard where
  holds s := s.Clean P
  of_le hle h d hd := h d (hle.diags.mem hd)

/-- A context of declarations: that of a definition with its type parameters, or
inside the target of a pending alias that was not open yet. -/
inductive Context.Top (p : Package) : Context → Prop
  | declared (templates : List String) : Top p { templates }
  | opened {c id} (h : Top p c) (hid : p.Pending id) (hpath : id ∉ c.aliasPath) :
      Top p (c.openAlias id)

theorem Context.Top.block {p : Package} {c : Context} (h : c.Top p) : c.block = none := by
  cases h <;> rfl

/-- The states between the resolutions of declarations. -/
inductive Reached (p : Package) (o : Options) : State → Prop
  | start : Reached p o {}
  | reported {s diags} (h : Reached p o s) : Reached p o { s with diags }
  | resolved {n c t s a s'} (hc : c.Top p) (h : Reached p o s)
      (hrun : (resolveAt p o n c t).run s = some (a, s')) : Reached p o s'
  | opened {n c id s a s'} (hc : c.Top p) (h : Reached p o s)
      (hrun : (aliasType id (envAt p o n c)).run s = some (a, s')) : Reached p o s'

/-- A pending alias has turned out to have no type. -/
def Failed (p : Package) (s : State) : Prop :=
  ∃ id, p.Pending id ∧ (id ∈ s.cyclicAliases ∨ (id, none) ∈ s.aliasCache)

/-- The computation of an array size has no result, or leaves an alias failed,
and reports no error. -/
inductive Loses (P : Span → Prop) (p : Package) (o : Options) (e : Expr) : Prop
  | size {n c s s'} (hc : c.Top p) (hs : Reached p o s)
      (hrun : (arraySize e (envAt p o n c)).run s = some (none, s')) (hclean : s'.Clean P)
  | typeAlias {n c s a s'} (hc : c.Top p) (hs : Reached p o s)
      (hrun : (arraySize e (envAt p o n c)).run s = some (a, s')) (hclean : s'.Clean P)
      (hbefore : ¬Failed p s) (hafter : Failed p s')

/-- The size of an array is not just a number written out. -/
def Computed (e : Expr) : Prop := ∀ k span, e ≠ .literal (.int k) span

/-- What in a type expression may leave it without a type and without an error. -/
inductive Blame (P : Span → Prop) (p : Package) (o : Options) (t : TypeExpr) : Prop
  | size {e u span} (h : (TypeExpr.array (some e) u span).Occurs t) (he : Computed e)
      (hl : Loses P p o e)
  | broken {name gs span id} (h : (TypeExpr.named name gs span).Occurs t)
      (hm : p.lookup? name.name = some (.typeAlias id)) (hb : id ∈ p.brokenAliases)

theorem Blame.part {P : Span → Prop} {p : Package} {o : Options} {t u : TypeExpr}
    (h : Blame P p o u) (hu : u ∈ t.parts) : Blame P p o t := by
  cases h with
  | size ho he hl => exact .size (.part hu ho) he hl
  | broken ho hm hb => exact .broken (.part hu ho) hm hb

/-! ## Errors under the guard -/

variable {span : Span}

section Errors

variable {P : Span → Prop} {env : Env} {s : State} {q : Problem}

theorem leads_report {Q : Unit → State → Prop} (hspan : P span) (hq : q.severity = .error) :
    Leads (.clean P) env s (report q span) Q := by
  intro _ _ he hclean
  cases he
  have hfalse := hclean ⟨q, span⟩ (by simp) hspan
  simp [Diagnostic.isError, hq] at hfalse

theorem leads_refuse {Q : Option α → State → Prop} (hspan : P span) (hq : q.severity = .error) :
    Leads (.clean P) env s (refuse q span) Q :=
  .stop (leads_report hspan hq)

theorem leads_plain {t : Ty} {gs : List TypeExpr} {Q : Option Ty → State → Prop} (hspan : P span)
    (h : Q (some t) s) : Leads (.clean P) env s (plain t gs span) Q := by
  unfold plain
  split
  · exact .pure h
  · exact .stop (leads_report hspan rfl)

theorem severity_arityProblem {required given : Nat} (h : arityProblem? required given = some q) :
    q.severity = .error := by
  unfold arityProblem? at h
  repeat' split at h
  all_goals cases h
  all_goals rfl

end Errors

/-! ## Resolution -/

/-- The targets of pending aliases lie within `P`, and where one of them is to
blame, `L` holds. -/
structure Charges (P : Span → Prop) (p : Package) (o : Options) (L : Prop) : Prop where
  known : ∀ {name id}, p.lookup? name = some (.typeAlias id) → id < p.aliases.size
  decl : ∀ {id}, p.Pending id → (p.typeAlias id).decl.Within P
  blame : ∀ {id}, p.Pending id → Blame P p o (p.typeAlias id).decl.target → L

/-- A state between resolutions. Where an alias failed, `L` holds. -/
structure Fair (p : Package) (o : Options) (L : Prop) (s : State) : Prop where
  reached : Reached p o s
  failed : Failed p s → L

/-- A result, or `B`. -/
structure Answered (p : Package) (L B : Prop) (a : Option α) (s : State) : Prop where
  failed : Failed p s → L
  none : a = none → B

/-- While an alias is pending, blame on the type expression is charged to `L`. -/
def Charged (P : Span → Prop) (p : Package) (o : Options) (L : Prop) (t : TypeExpr) : Prop :=
  ∀ id, p.Pending id → Blame P p o t → L

theorem Charged.part {P : Span → Prop} {p : Package} {o : Options} {L : Prop} {t u : TypeExpr}
    (h : Charged P p o L t) (hu : u ∈ t.parts) : Charged P p o L u :=
  fun id hid hb => h id hid (hb.part hu)

/-- The outcome of resolution: a type, or blame on the type expression or `L`. -/
structure Accounted (P : Span → Prop) (p : Package) (o : Options) (L : Prop) (t : TypeExpr)
    (a : Option Ty) (s : State) : Prop where
  fair : Fair p o L s
  none : a = none → Blame P p o t ∨ L

/-- The level accounts for the failures of resolution. -/
def Accounts (P : Span → Prop) (p : Package) (o : Options) (L : Prop) (n : Nat) : Prop :=
  ∀ ⦃c t s⦄, c.Top p → t.Within P → Charged P p o L t → Fair p o L s →
    Leads (.clean P) (envAt p o n c) s (resolve t) (Accounted P p o L t)

section Resolution

variable {P : Span → Prop} {p : Package} {o : Options} {L : Prop} {n : Nat} {c : Context}
  {s : State} {ts : List TypeExpr}

theorem Fair.answered {B : Prop} {a : α} (h : Fair p o L s) : Answered p L B (some a) s :=
  ⟨h.failed, by simp⟩

theorem failed_request {template : Template} {types : List Ty} {env : Env} (hs : Failed p s → L) :
    Leads (.clean P) env s (request template types span) fun _ s' => Failed p s' → L := by
  unfold request
  split
  · exact .pure hs
  · exact leads_update hs

section Below

variable (hbelow : Accounts P p o L n) (hc : c.Top p) (hs : Fair p o L s)

section Parts

variable (hts : ∀ t ∈ ts, t.Within P) (hcharged : ∀ t ∈ ts, Charged P p o L t)

include hbelow hc hs hts hcharged

theorem accounts_resolveAll :
    Leads (.clean P) (envAt p o n c) s (resolveAll ts) fun a s' =>
      Fair p o L s' ∧ (a = none → (∃ t ∈ ts, Blame P p o t) ∨ L) := by
  induction ts generalizing s with
  | nil => exact .pure ⟨hs, by simp⟩
  | cons t ts ih =>
    rw [List.forall_mem_cons] at hts hcharged
    refine .bind (hbelow hc hts.1 hcharged.1 hs) fun first s1 _ hfirst => ?_
    refine .bind (ih hfirst.fair hts.2 hcharged.2) fun rest s2 _ hrest =>
      .pure ⟨hrest.1, fun hnone => ?_⟩
    rcases none_of_both hnone with hnone | hnone
    · exact (hfirst.none hnone).imp_left fun hb => ⟨t, by simp, hb⟩
    · exact (hrest.2 hnone).imp_left fun ⟨v, hv, hb⟩ => ⟨v, by simp [hv], hb⟩

theorem accounts_resolveArgs :
    Leads (.clean P) (envAt p o n c) s (resolveArgs ts)
      (Answered p L ((∃ t ∈ ts, Blame P p o t) ∨ L)) := by
  refine .bind (accounts_resolveAll hbelow hc hs hts hcharged) fun a s1 _ hall => ?_
  cases a with
  | none => exact .pure ⟨hall.1.failed, hall.2⟩
  | some types =>
    dsimp only
    split
    next u t hfind =>
      have hmem : t ∈ ts := (List.of_mem_zip (List.mem_of_find?_eq_some hfind)).2
      exact leads_refuse (hts t hmem).span rfl
    next => exact .pure hall.1.answered

theorem accounts_resolveStruct {id : StructId} (hspan : P span) :
    Leads (.clean P) (envAt p o n c) s (resolveStruct id ts span)
      (Answered p L ((∃ t ∈ ts, Blame P p o t) ∨ L)) := by
  refine .package ?_
  dsimp only
  split
  next q hq => exact leads_refuse hspan (severity_arityProblem hq)
  next =>
    refine .bind (accounts_resolveArgs hbelow hc hs hts hcharged) fun a s1 _ hargs => ?_
    cases a with
    | none => exact .pure ⟨hargs.failed, fun _ => hargs.none rfl⟩
    | some types =>
      dsimp only
      split
      · exact .bind (failed_request hargs.failed) fun _ _ _ h => .pure ⟨h, by simp⟩
      · exact .pure ⟨hargs.failed, by simp⟩

end Parts

/-! ### Names -/

variable (hL : Charges P p o L)

include hbelow hc hs hL

/-- A pending alias that fails is charged to its target. -/
theorem accounts_aliasType {id : AliasId} (hid : id < p.aliases.size) :
    Leads (.clean P) (envAt p o n c) s (aliasType id)
      (Answered p L (id ∈ p.brokenAliases ∨ L)) := by
  intro a s' hrun hclean
  cases aliasRun_of_run hrun with
  | typed h => exact hs.answered
  | broken _ hbroken => exact ⟨hs.failed, fun _ => .inl hbroken⟩
  | cyclic htype hcyclic =>
    refine ⟨hs.failed, fun _ => ?_⟩
    by_cases hb : id ∈ p.brokenAliases
    · exact .inl hb
    · exact .inr (hs.failed ⟨id, ⟨hid, htype, hb⟩, .inl hcyclic⟩)
  | answered htype hunbroken _ hcached =>
    refine ⟨hs.failed, ?_⟩
    rintro rfl
    obtain ⟨before, after, hsplit, -⟩ := List.lookup_eq_some_iff.mp hcached
    exact .inr (hs.failed ⟨id, ⟨hid, htype, hunbroken⟩, .inr (by simp [hsplit])⟩)
  | cycle hfresh _ =>
    have hpending : p.Pending id := ⟨hid, hfresh.type, hfresh.unbroken⟩
    have hfalse := hclean ⟨.cycle (p.typeAlias id).name, (p.typeAlias id).decl.name.span⟩
      (by simp [State.closeCycle, envAt]) (hL.decl hpending).name
    cases hfalse
  | @opened r s1 hfresh hpath htarget =>
    have hpending : p.Pending id := ⟨hid, hfresh.type, hfresh.unbroken⟩
    obtain ⟨hfair, hnone⟩ := hbelow (hc.opened hpending hpath) (hL.decl hpending).target
      (fun _ _ => hL.blame hpending) hs htarget hclean
    -- a failure is remembered only where one is accounted for
    have hkept : s1.answer id r = none → L := by
      unfold State.answer
      split
      next hcyclic =>
        exact fun _ => hfair.failed ⟨id, hpending, .inl (List.contains_iff_mem.mp hcyclic)⟩
      next => exact fun h => (hnone h).elim (hL.blame hpending) fun h => h
    refine ⟨?_, fun h => .inr (hkept h)⟩
    rintro ⟨id', hpending', hcyclic | hcached⟩
    · exact hfair.failed ⟨id', hpending', .inl hcyclic⟩
    · rcases List.mem_cons.mp hcached with heq | hcached
      · exact hkept (Prod.mk.inj heq).2.symm
      · exact hfair.failed ⟨id', hpending', .inr hcached⟩

theorem accounts_resolveDefined {name : Ident} (hname : P name.span) (hspan : P span)
    (hts : ∀ t ∈ ts, t.Within P) (hcharged : ∀ t ∈ ts, Charged P p o L t) :
    Leads (.clean P) (envAt p o n c) s (resolveDefined name ts span)
      (Answered p L (Blame P p o (.named name ts span) ∨ L)) := by
  refine .package ?_
  split
  next id hm =>
    refine .bind (accounts_aliasType hbelow hc hs hL (hL.known hm)) fun target s1 _ htarget => ?_
    cases target with
    | none =>
      refine .pure ⟨htarget.failed, fun _ => (htarget.none rfl).imp_left fun hb => ?_⟩
      exact .broken .self hm hb
    | some t =>
      dsimp only
      split
      · exact .pure ⟨htarget.failed, by simp⟩
      · refine leads_refuse hspan ?_
        split <;> rfl
  next id _ =>
    split
    · exact .pure hs.answered
    · exact leads_refuse hspan rfl
  next id _ => exact leads_plain hspan hs.answered
  next id _ =>
    refine (accounts_resolveStruct hbelow hc hs hts hcharged hspan).mono fun a s' ha =>
      ⟨ha.failed, fun hnone => ?_⟩
    exact (ha.none hnone).imp_left fun ⟨t, ht, hb⟩ => hb.part ht
  · exact leads_refuse hname rfl
  · exact leads_refuse hname rfl
  · exact leads_refuse hname rfl

omit hbelow hc hs hL in
theorem leads_useLocalAlias {G : Guard} {env : Env} {name : String} {Q : Option Ty → State → Prop}
    (hblock : env.context.block = none) (h : Q none s) :
    Leads G env s (useLocalAlias name) Q := by
  refine .context ?_
  rw [hblock]
  exact .pure h

theorem accounts_resolveNamed {name : Ident} (hname : P name.span) (hspan : P span)
    (hts : ∀ t ∈ ts, t.Within P) (hcharged : ∀ t ∈ ts, Charged P p o L t) :
    Leads (.clean P) (envAt p o n c) s (resolveNamed name ts span)
      (Answered p L (Blame P p o (.named name ts span) ∨ L)) := by
  refine .context ?_
  dsimp only
  split
  · exact leads_plain hspan hs.answered
  split
  · exact leads_plain hspan hs.answered
  split
  · exact leads_plain hspan hs.answered
  refine .bind (M := fun a s' => a = none ∧ s' = s)
    (leads_useLocalAlias hc.block ⟨rfl, rfl⟩) ?_
  rintro _ _ _ ⟨rfl, rfl⟩
  dsimp only
  split
  · exact leads_plain hspan hs.answered
  · exact accounts_resolveDefined hbelow hc hs hL hname hspan hts hcharged

end Below

/-! ### Compound types -/

theorem literal_int (k : UInt64) : (literal (.int k)).isType = false ∧
    ((∃ x : Int64, (literal (.int k)).constant = some (.int x) ∧ 0 ≤ x.toInt) ∨
      ∃ x, (literal (.int k)).constant = some (.uint x)) := by
  simp only [literal]
  split
  next hlt =>
    refine ⟨rfl, .inl ⟨k.toInt64, rfl, ?_⟩⟩
    have hbits : k.toBitVec.toNat < 9223372036854775808 := hlt
    have hdouble : 2 * k.toBitVec.toNat < 2 ^ 64 := by omega
    have heq : k.toInt64.toInt = k.toBitVec.toNat := BitVec.toInt_eq_toNat_of_lt hdouble
    omega
  next => exact ⟨rfl, .inr ⟨k, rfl⟩⟩

/-- A number written out is a size, and no alias is asked for. -/
theorem leads_arraySize_int {G : Guard} {k : UInt64} :
    Leads G (envAt p o n c) s (arraySize (.literal (.int k) span)) fun a s' =>
      a ≠ none ∧ s'.cyclicAliases = s.cyclicAliases ∧ s'.aliasCache = s.aliasCache := by
  obtain ⟨htype, hconstant⟩ := literal_int k
  cases n with
  | zero => exact fun a s' h => by cases h
  | succ n =>
    have hannotate : Leads G (envAt p o n c) s (annotate span (literal (.int k))) fun _ s' =>
        s'.cyclicAliases = s.cyclicAliases ∧ s'.aliasCache = s.aliasCache := by
      unfold annotate
      split
      · exact .pure ⟨rfl, rfl⟩
      · exact leads_update ⟨rfl, rfl⟩
    have hstep : Leads G (envAt p o (n + 1) c) s (evalAny (.literal (.int k) span) none)
        fun v s' => v = literal (.int k) ∧ s'.cyclicAliases = s.cyclicAliases ∧
          s'.aliasCache = s.aliasCache := by
      intro v s' hrun hg
      obtain ⟨_, _, hrun, hrest⟩ := run_bind.mp hrun
      cases hrun
      obtain ⟨_, s1, hrun, hrest⟩ := run_bind.mp hrest
      cases hrest
      exact ⟨rfl, hannotate hrun hg⟩
    have heval : Leads G (envAt p o (n + 1) c) s (eval (.literal (.int k) span) none)
        fun v s' => v = literal (.int k) ∧ s'.cyclicAliases = s.cyclicAliases ∧
          s'.aliasCache = s.aliasCache := by
      refine .bind hstep ?_
      rintro _ s1 _ ⟨rfl, h⟩
      rw [htype]
      exact .pure ⟨rfl, h⟩
    refine .bind heval ?_
    rintro _ s1 _ ⟨rfl, h⟩
    rcases hconstant with ⟨x, hx, hnonneg⟩ | ⟨x, hx⟩
    · rw [hx]
      dsimp only
      rw [if_pos hnonneg]
      exact .pure ⟨by simp, h⟩
    · rw [hx]
      exact .pure ⟨by simp, h⟩

theorem accounts_arraySize (hc : c.Top p) {e : Expr} (hs : Fair p o L s)
    (hl : ∀ id, p.Pending id → Loses P p o e → L) :
    Leads (.clean P) (envAt p o n c) s (arraySize e) (Answered p L (Loses P p o e)) := by
  intro a s' he hclean
  refine ⟨fun hafter => ?_, ?_⟩
  · by_cases hbefore : Failed p s
    · exact hs.failed hbefore
    · have ⟨id, hpending, _⟩ := hafter
      exact hl id hpending (.typeAlias hc hs.reached he hclean hbefore hafter)
  · rintro rfl
    exact .size hc hs.reached he hclean

theorem accounts_resolveStep (hbelow : Accounts P p o L n) (hL : Charges P p o L) (hc : c.Top p)
    {t : TypeExpr} (ht : t.Within P) (hcharged : Charged P p o L t) (hs : Fair p o L s) :
    Leads (.clean P) (envAt p o n c) s (resolveStep t)
      (Answered p L (Blame P p o t ∨ L)) := by
  rcases t.named_or_compound with ⟨name, gs, span, rfl⟩ | hcompound
  · cases ht with
    | named hname hspan hgs =>
      exact accounts_resolveNamed hbelow hc hs hL hname hspan hgs fun g hg => hcharged.part hg
  rw [Leads, resolveStep_compound hcompound]
  refine Leads.bind (accounts_resolveAll hbelow hc hs ht.parts fun u hu => hcharged.part hu)
    fun a s1 _ ha => ?_
  cases a with
  | none =>
    exact .pure ⟨ha.1.failed, fun _ => (ha.2 rfl).imp_left fun ⟨u, hu, hb⟩ => hb.part hu⟩
  | some us =>
    rw [finish]
    split
    · split
      · exact .pure ha.1.answered
      next e he =>
        obtain ⟨u, span, rfl⟩ := TypeExpr.eq_array_of_size? he
        by_cases hcomputed : Computed e
        · have hblame : Loses P p o e → Blame P p o (.array (some e) u span) := .size .self hcomputed
          refine .bind (accounts_arraySize hc ha.1 fun id hid hl => hcharged id hid (hblame hl))
            fun m s2 _ hm => .pure ⟨hm.failed, fun hnone => .inl (hblame (hm.none ?_))⟩
          simpa using hnone
        · obtain ⟨k, place, rfl⟩ : ∃ k place, e = .literal (.int k) place := by
            simpa [Computed] using hcomputed
          refine .bind leads_arraySize_int fun m s2 _ hm => .pure ⟨fun hfailed => ?_, ?_⟩
          · rw [Failed, hm.2.1, hm.2.2] at hfailed
            exact ha.1.failed hfailed
          · exact fun hnone => absurd (by simpa using hnone) hm.1
    · exact leads_refuse ht.span rfl

/-- Where no error is reported, a type expression without a type is to blame
itself, or an alias that it opened is. -/
theorem accounts_resolveAt (hL : Charges P p o L) (n : Nat) : Accounts P p o L n := by
  induction n with
  | zero => exact fun c t s _ _ _ _ a s' he => by cases he
  | succ n ih =>
    intro c t s hc ht hcharged hs a s' he hclean
    have hstep := accounts_resolveStep ih hL hc ht hcharged hs he hclean
    exact ⟨⟨.resolved hc hs.reached he, hstep.failed⟩, hstep.none⟩

end Resolution

end Check

end JaneCheck
