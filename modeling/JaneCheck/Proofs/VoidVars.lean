import JaneCheck.Proofs.Execution
import JaneCheck.Proofs.Regimes.Moves
import JaneCheck.Proofs.VoidReads

/-!
# Void variables

A variable whose type is taken from its value is not void, or an error was
reported: the value failed, has no type to take, or is missing. So where no
error is reported, a void read comes from a variable that is void for a
reason of its own. `VarRoot` names the reasons: it is a parameter or named
result, it is declared with a written type, or it runs over the elements of
something. The invariant `Explained` of the states of a body says this of all
void reads and void variables.
-/

namespace JaneCheck

open Demand (covered_lax covers_lax)
open Syntax (Expr Ident LetName Stmt TypeExpr)

/-- A global has a void value in the table. -/
def Package.VoidGlobal (p : Package) : Prop :=
  ∃ id v, (p.global id).value = some v ∧ v.type.isVoid = true

namespace Check

/-- Nothing is opened, and the bindings are in `B`. -/
def Context.Under (B : Bindings → Prop) (c : Context) : Prop :=
  c.aliasPath = [] ∧ c.globalPath = [] ∧ B c.bindings

/-- The body of the function is checked under these, for some type arguments. -/
def BodyBindings (p : Package) (id : FuncId) (b : Bindings) : Prop :=
  ∃ ownerTypes types, b = Bindings.pushFrame {}
    ((p.ownerGenerics (p.func id)).zip ownerTypes ++ (p.func id).generics.zip types)

/-- Why a variable is void in `s` without an error. The runs that are named end before `s`. -/
inductive VarRoot (p : Package) (o : Options) (s : State) (v : Var) : Prop
  | param (h : v.isParam = true)
  /-- Its written type is void, or has no type and yet reports nothing. -/
  | annotated {id name mutable constant t value span l ss fs n c s1 a s2}
      (hplace : Flow.Place (p.func id).decl.body.stmts
        ⟨l, .declare name mutable constant (some t) value span :: ss, fs⟩)
      (hname : v.name = name.name) (hspan : v.span = name.span) (hc : c.Under (BodyBindings p id))
      (hrun : (resolve t (envAt p o n c)).run s1 = some (a, s2)) (htype : v.type = a.getD .void)
      (hle : s2.Le s)
  /-- It has the type of a part of the value that the loop runs over. -/
  | loop {id names subject body span l ss fs n c s1 w s2 types s3} {name : Ident}
      (hplace : Flow.Place (p.func id).decl.body.stmts
        ⟨l, .loop (.forEach names subject) body span :: ss, fs⟩)
      (hmem : name ∈ names) (hname : v.name = name.name) (hspan : v.span = name.span)
      (hc : c.Under (BodyBindings p id))
      (hrun : (evalChecked subject none (envAt p o n c)).run s1 = some (some w, s2))
      (htypes : (loopTypes w.type subject.span (envAt p o n c)).run s2 = some (types, s3))
      (htype : v.type ∈ types) (hle : s3.Le s)

/-- A void variable or a void global accounts for the void reads. -/
def Excused (p : Package) (o : Options) (s : State) : Prop :=
  (∃ v ∈ s.scopes.vars, v.type.isVoid = true ∧ VarRoot p o s v) ∨ p.VoidGlobal

/-- Void reads and void variables have their roots, and no global is computed. -/
structure Explained (p : Package) (o : Options) (s : State) : Prop where
  cache : s.globalCache = []
  cyclic : s.cyclicGlobals = []
  root : (0 < s.voidReads ∨ ∃ v ∈ s.scopes.vars, v.type.isVoid = true) → Excused p o s

section States

variable {p : Package} {o : Options} {b : Bool} {s s' : State}

theorem VarRoot.mono {v w : Var} (h : VarRoot p o s v) (hle : s.Le s') (he : w.bare = v.bare) :
    VarRoot p o s' w := by
  have hname : w.bare.name = v.bare.name := by rw [he]
  have htype : w.bare.type = v.bare.type := by rw [he]
  have hparam : w.bare.isParam = v.bare.isParam := by rw [he]
  have hspan : w.bare.span = v.bare.span := by rw [he]
  cases h with
  | param h => exact .param (hparam.trans h)
  | annotated hplace hn hs hc hrun ht h =>
    exact .annotated hplace (hname.trans hn) (hspan.trans hs) hc hrun (htype.trans ht) (h.trans hle)
  | loop hplace hmem hn hs hc hrun htypes ht h =>
    refine .loop hplace hmem (hname.trans hn) (hspan.trans hs) hc hrun htypes ?_ (h.trans hle)
    exact htype ▸ ht

theorem Excused.trace (h : Excused p o s) (hle : s.Le s')
    (hvars : s'.scopes.vars.map Var.bare = s.scopes.vars.map Var.bare) : Excused p o s' := by
  refine h.imp_left ?_
  rintro ⟨v, hv, hvoid, hroot⟩
  obtain ⟨w, hw, he⟩ := exists_bare_eq hvars hv
  have htype : w.bare.type = v.bare.type := by rw [he]
  exact ⟨w, hw, hvoid ▸ congrArg Ty.isVoid htype, hroot.mono hle he⟩

/-- What declares no variable keeps all explained. -/
theorem Explained.trace (hp : p.Valued) (hs : Explained p o s) (h : Trace p o b s s') : Explained p o s' := by
  obtain ⟨hcache, hcyclic⟩ := h.globals hp
  have hvar : (∃ v ∈ s'.scopes.vars, v.type.isVoid = true) → Excused p o s := by
    rintro ⟨v, hv, hvoid⟩
    obtain ⟨w, hw, he⟩ := exists_bare_eq h.vars.symm hv
    have htype : w.bare.type = v.bare.type := by rw [he]
    exact hs.root (.inr ⟨w, hw, hvoid ▸ congrArg Ty.isVoid htype⟩)
  refine ⟨hcache.trans hs.cache, hcyclic.trans hs.cyclic, fun h' => ?_⟩
  refine Excused.trace ?_ h.le h.vars
  rcases h' with hreads | hv
  · by_cases hbefore : 0 < s.voidReads
    · exact hs.root (.inl hbefore)
    · cases h.voidSource (by omega) with
      | var hv hvoid => exact hvar ⟨_, hv, hvoid⟩
      | value hv hvoid => exact .inr ⟨_, _, hv, hvoid⟩
      | answer _ hv _ => simp [hcache, hs.cache] at hv
      | cyclic _ hid => simp [hcyclic, hs.cyclic] at hid
  · exact hvar hv

end States

/-! ## The judgement -/

section Judgement

variable {p : Package} {o : Options} {B : Bindings → Prop} {env : Env} {s : State}

theorem Leads.and {G : Guard} {x : Check α} {Q R : α → State → Prop} (hQ : Leads G env s x Q)
    (hR : Leads G env s x R) : Leads G env s x fun a s' => Q a s' ∧ R a s' :=
  fun _ _ hrun hg => ⟨hQ hrun hg, hR hrun hg⟩

theorem Leads.discard {G : Guard} {x : Check α} {R : State → Prop}
    (hx : Leads G env s x fun _ s' => R s') : Leads G env s (discard x) fun _ s' => R s' :=
  .bind hx fun _ _ _ h => .pure h

/-- Where no error is reported, the check keeps all explained under bindings of `B`. -/
def Settles (p : Package) (o : Options) (B : Bindings → Prop) (x : Check α) : Prop :=
  ∀ n c s, c.Under B → Explained p o s →
    Leads .noErrors (envAt p o n c) s x fun _ s' => Explained p o s'

theorem Settles.pure (a : α) : Settles p o B (pure a) := fun _ _ _ _ hs => .pure hs

theorem Settles.bind {x : Check α} {f : α → Check β} (hx : Settles p o B x)
    (hf : ∀ a, Settles p o B (f a)) : Settles p o B (x >>= f) :=
  fun n c s hc hs => .bind (hx n c s hc hs) fun a s1 _ h => hf a n c s1 hc h

theorem Settles.inContext {C : Bindings → Prop} {f : Excursion} {x : Check α}
    (hf : ∀ {c}, c.Under B → (f c).Under C) (hx : Settles p o C x) :
    Settles p o B (inContext f x) := fun n c s hc hs => .inContext (hx n (f c) s (hf hc) hs)

theorem Settles.package {f : Package → Check α} (hf : Settles p o B (f p)) :
    Settles p o B (package >>= f) := fun n c s hc hs => .package (hf n c s hc hs)

theorem Settles.listForM {as : List α} {f : α → Check Unit} (h : ∀ a ∈ as, Settles p o B (f a)) :
    Settles p o B (as.forM f) := by
  induction as with
  | nil => exact .pure ()
  | cons a as ih => exact .bind (h a (by simp)) fun _ => ih fun b hb => h b (by simp [hb])

end Judgement

/-! ## Declarations -/

section Declarations

variable {p : Package} {o : Options} {env : Env} {s : State}

end Declarations

/-! ## Statements -/

section Statements

variable {p : Package} {o : Options} {B : Bindings → Prop} {s : State} (hp : p.Valued)

include hp

theorem Settles.tracing {x : Check α} {R : α → Prop} (hx : (tracing p o).Obeys x R) : Settles p o B x :=
  fun n c s _ hs _ _ hrun _ => hs.trace hp ((hx n c s trivial hrun trivial).1.trace not_false)

theorem leads_withBlock {n : Nat} {c : Context} {x : BlockId → Check α} (isUnsafe : Bool)
    (hc : c.Under B) (hs : Explained p o s)
    (hx : ∀ b c s1, c.Under B → Explained p o s1 → s.Le s1 →
      Leads .noErrors (envAt p o n c) s1 (x b) fun _ s' => Explained p o s') :
    Leads .noErrors (envAt p o n c) s (withBlock isUnsafe x) fun _ s' => Explained p o s' := by
  refine .context (.state ?_)
  have henter : Trace p o false s { s with scopes := (s.scopes.enter c.block c.index isUnsafe).2 } :=
    .step (.blocks _)
  refine .bind (M := fun _ s' => Explained p o s' ∧ s.Le s')
    (leads_update ⟨hs.trace hp henter, henter.le⟩) fun _ s1 _ hs1 => ?_
  refine .bind (.inContext (hx _ _ s1 hc hs1.1 hs1.2)) fun a s2 _ hs2 => ?_
  exact .bind (Settles.tracing hp (keeps_reportUnused _) n c s2 hc hs2) fun _ s3 _ hs3 => .pure hs3

theorem Settles.withBlock {x : BlockId → Check α} (isUnsafe : Bool)
    (hx : ∀ b, Settles p o B (x b)) : Settles p o B (withBlock isUnsafe x) :=
  fun n _ _ hc hs => leads_withBlock hp isUnsafe hc hs fun b c s1 hc hs1 _ => hx b n c s1 hc hs1

theorem Settles.withCase {x : Check α} (isUnsafe : Bool) (size : Nat) (isFinal : Bool)
    (hx : Settles p o B x) : Settles p o B (withCase isUnsafe size isFinal x) :=
  .withBlock hp isUnsafe fun _ => .inContext (fun h => h) hx

end Statements

/-- The statements stand together in the body of the function. -/
def Listed (p : Package) (id : FuncId) (stmts : List Stmt) : Prop :=
  ∃ l fs, Flow.Place (p.func id).decl.body.stmts ⟨l, stmts, fs⟩

section Listed

variable {p : Package} {id : FuncId}

theorem Listed.next {x : Stmt} {ss : List Stmt} (h : Listed p id (x :: ss)) : Listed p id ss := by
  obtain ⟨l, fs, h⟩ := h
  exact ⟨_, fs, .next h⟩

theorem Listed.enter {x : Stmt} {ss stmts : List Stmt} (h : Listed p id (x :: ss))
    (hstmts : stmts ∈ x.inner) : Listed p id stmts := by
  obtain ⟨l, fs, h⟩ := h
  obtain ⟨l', fs', he⟩ := Flow.exists_enters l ss fs hstmts
  exact ⟨l', fs', .enter h he⟩

end Listed

section Bodies

variable {p : Package} {o : Options} {B : Bindings → Prop}

end Bodies

end Check

namespace Package

open Check

variable {p : Package} {o : Options}

end Package

end JaneCheck
