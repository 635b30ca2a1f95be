import JaneCheck.Proofs.Silence

/-!
# Signatures and declarations

A signature that is made of a declaration has the slots of the declaration, and
is unsafe if the declaration is. So are the signatures in the tables that checks
run with: those collected from sources and those that the phases make of them.
There a function has no parameters until its signature is resolved.
-/

namespace JaneCheck

open Check (Env State)
open Package (Setup)
open Syntax (Function)

/-- The slots of the parameters that a function declares. -/
def Syntax.Function.slots (d : Function) : List Slot :=
  d.params.map fun q => ⟨q.name.name, q.variadic⟩

/-- The signature has the slots and the safety of the declaration. -/
structure FnSig.Follows (sig : FnSig) (d : Function) : Prop where
  slots : Check.slots sig.params = d.slots
  isUnsafe : sig.isUnsafe = d.isUnsafe

/-- The signature of the entry follows the declaration, perhaps still without
parameters. -/
structure FuncInfo.Faithful (f : FuncInfo) : Prop where
  slots : f.sig.params = [] ∨ Check.slots f.sig.params = f.decl.slots
  isUnsafe : f.sig.isUnsafe = f.decl.isUnsafe

/-! ## Signatures that are made of declarations -/

namespace Check

variable {env : Env} {s : State}

theorem leads_slots_resolveParams (ps : List Syntax.Param) :
    Leads .any env s (resolveParams ps) fun params _ =>
      slots params = ps.map fun q => ⟨q.name.name, q.variadic⟩ := by
  induction ps generalizing s with
  | nil => exact .pure rfl
  | cons q ps ih =>
    refine .after fun t s1 _ => .bind ih fun params s2 _ hparams => .pure ?_
    rw [List.map_cons, ← hparams]
    rfl

theorem follows_resolveSignature (d : Function) :
    Leads .any env s (resolveSignature d.params d.ret d.receiver d.isUnsafe) fun sig _ =>
      sig.Follows d := by
  refine .bind (leads_slots_resolveParams d.params) fun params s1 _ hparams => ?_
  split
  · exact .after fun t s2 _ => .pure ⟨hparams, rfl⟩
  · exact .pure ⟨hparams, rfl⟩

theorem follows_funcSig (f : FuncInfo) :
    Leads .any env s (Package.funcSig f) fun sig _ => sig.Follows f.decl := by
  have hsig : ∀ s, Leads .any env s (do
      let names ← Package.templateNames f.decl.name.span f.generics (env.package.ownerGenerics f)
      Package.withTemplates names
        (resolveSignature f.decl.params f.decl.ret f.decl.receiver f.decl.isUnsafe))
      fun sig _ => sig.Follows f.decl :=
    fun s => .after fun _ _ _ => .inContext (follows_resolveSignature f.decl)
  refine .package ?_
  dsimp only
  split
  · split
    · exact .after fun _ _ _ => hsig _
    · exact hsig s
  · exact hsig s

end Check

/-! ## Tables -/

namespace Package

/-- The tables that checks run with. -/
inductive IsTable : Package → Prop
  | collect (sources : List Source) :
    IsTable (Package.collect ((Report.parseAll sources).map Report.programOf)).package
  | resolveAliases {p q : Package} {setup : Setup} {found : Findings} (hp : IsTable p)
    (h : p.resolveAliases setup = some (q, found)) : IsTable q
  | resolveEnums {p q : Package} {setup : Setup} {found : Findings} (hp : IsTable p)
    (h : p.resolveEnums setup = some (q, found)) : IsTable q
  | resolveTypes {p q : Package} {setup : Setup} {files : Nat} {found : Findings} (hp : IsTable p)
    (h : p.resolveTypes setup files = some (q, found)) : IsTable q
  | computeGlobals {p q : Package} {setup : Setup} {found : Findings} (hp : IsTable p)
    (h : p.computeGlobals setup = some (q, found)) : IsTable q

variable {p q : Package} {setup : Setup} {files : Nat} {found : Findings}

/-- The signatures of a file are those of its functions. -/
theorem follows_fileTypes {file : Nat} {t : FileTypes}
    (h : p.find setup {} (p.fileTypes file) = some (t, found)) :
    ∀ r ∈ t.sigs, ∀ f, p.funcs[r.1]? = some f → r.2.Follows f.decl := by
  obtain ⟨s, hrun, -⟩ := run_of_find h
  have hleads : Check.Leads .any (Check.envAt p setup.options setup.depth {}) {} (p.fileTypes file)
      fun t _ => List.Forall₂ (fun e r => r.1 = e.2 ∧ r.2.Follows e.1.decl)
        (ofFile p.funcs (·.file) file) t.sigs := by
    refine .after fun fields s1 _ => .after fun methods s2 _ => ?_
    refine .bind (Check.leads_forEachCheck (I := fun _ => True) (fun e _ s _ => ?_) trivial)
      fun sigs s3 _ hsigs => .pure hsigs.2
    exact .bind (Check.follows_funcSig e.1) fun sig _ _ hsig => .pure ⟨trivial, rfl, hsig⟩
  intro r hr f hf
  obtain ⟨e, he, hid, hsig⟩ := (exists_of_forall2 (hleads hrun trivial)).1 r hr
  rw [hid, (mem_ofFile.mp he).1] at hf
  cases hf
  exact hsig

/-- Entering a signature that follows the declaration keeps the table faithful. -/
theorem faithful_resolveTypes (h : p.resolveTypes setup files = some (q, found))
    (hp : ∀ f ∈ p.funcs, f.Faithful) : ∀ f ∈ q.funcs, f.Faithful := by
  obtain ⟨rs, hrs, he⟩ := Option.bind_eq_some_iff.mp h
  cases he
  rw [(foldl_enterTypes rs p).2]
  -- Entries change their signatures alone, so they are compared with the first table.
  have hkept : ∀ (i : Nat) (f : FuncInfo), ((rs.flatMap (·.1.sigs)).foldl
      (fun as r => as.modify r.1 fun f => { f with sig := r.2 }) p.funcs)[i]? = some f →
      (∃ f0, p.funcs[i]? = some f0 ∧ f.decl = f0.decl) ∧ f.Faithful := by
    refine List.foldlRecOn (motive := fun as : Array FuncInfo => ∀ (i : Nat) (f : FuncInfo),
      as[i]? = some f → (∃ f0, p.funcs[i]? = some f0 ∧ f.decl = f0.decl) ∧ f.Faithful) _ _
      (fun i f hf => ⟨⟨f, hf, rfl⟩, hp f (Array.mem_of_getElem? hf)⟩) fun as has r hr i f hf => ?_
    rw [Array.getElem?_modify] at hf
    split at hf
    next hi =>
      obtain ⟨f1, hf1, rfl⟩ := Option.map_eq_some_iff.mp hf
      obtain ⟨⟨f0, hf0, hdecl⟩, -⟩ := has i f1 hf1
      obtain ⟨x, hx, hrx⟩ := List.mem_flatMap.mp hr
      obtain ⟨file, -, hfind⟩ := Demand.exists_of_mem_mapM hrs hx
      have hfollows := follows_fileTypes hfind r hrx f0 (hi ▸ hf0)
      refine ⟨⟨f0, hf0, hdecl⟩, ?_⟩
      rw [← hdecl] at hfollows
      exact ⟨.inr hfollows.slots, hfollows.isUnsafe⟩
    next => exact has i f hf
  intro f hf
  obtain ⟨i, hi⟩ := Array.mem_iff_getElem?.mp hf
  exact (hkept i f hi).2

theorem IsTable.faithful_mem (h : p.IsTable) : ∀ f ∈ p.funcs, f.Faithful := by
  induction h with
  | collect sources =>
    have hc := (Report.sound_parseAll sources).table
    exact fun f hf => ⟨.inl (hc.funcs f hf).1.1, hc.funcSafety f hf⟩
  | resolveAliases _ h ih => exact (sameItems_resolveAliases h).funcs ▸ ih
  | resolveEnums _ h ih => exact (same_resolveEnums h).1.funcs ▸ ih
  | resolveTypes _ h ih => exact faithful_resolveTypes h ih
  | computeGlobals _ h ih => exact (same_computeGlobals h).1.funcs ▸ ih

theorem IsTable.faithful (h : p.IsTable) (id : FuncId) : (p.func id).Faithful :=
  Demand.forall_getD h.faithful_mem ⟨.inl rfl, rfl⟩ id

end Package

theorem Check.leads_isUnsafe_instantiateSig {p : Package} {o : Options} {n : Nat} {c : Context}
    {s : State} (hp : p.IsTable) (id : FuncId) (ownerTypes types : List Ty) :
    Leads .any (envAt p o n c) s (instantiateSig id ownerTypes types) fun sig _ =>
      sig.isUnsafe = (p.func id).decl.isUnsafe := by
  refine .package ?_
  split
  · exact .pure (hp.faithful id).isUnsafe
  · refine .inContext fun sig s' hrun _ => ?_
    obtain ⟨s1, hinner, rfl⟩ := run_quietly.mp hrun
    exact (follows_resolveSignature _ hinner trivial).isUnsafe

end JaneCheck
