import JaneCheck.Proofs.Notes

/-!
# Resolution finds what is denoted

One step of resolution, in terms of its parts and of the aliases that it mentions:
if what is found of these is right, then so is the answer of the step.
-/

namespace JaneCheck

open Relation (TransGen)

open Syntax (Ident TypeExpr)

/-- What is found of the aliases. -/
def Package.aliasNotes (p : Package) : Check.Notes Ty (Option Ty) where
  cache := (·.aliasCache)
  cyclic := (·.cyclicAliases)
  noted := id
  Alarm d := d.isError = true
  Stands := p.outline.Stands
  Knotted := ∃ a, TransGen p.outline.Refers a a

namespace Check

abbrev Truthful (p : Package) := p.aliasNotes.Truthful

abbrev Settled (p : Package) (s0 : State) (D : α → Prop) := p.aliasNotes.Settled s0 D

section Answers

variable {p : Package} {s0 s : State} {D : α → Prop} {span : Span} {env : Env}

theorem gives_refuse {q : Problem} (hs : Truthful p s0 s) (hq : q.severity = .error)
    (hcycle : ∀ name, q ≠ .cycle name) (hD : ∀ a, ¬ D a) :
    Gives env s (refuse q span) (Settled p s0 D) := by
  have hle : s.Le { s with diags := s.diags.push ⟨q, span⟩ } := by constructor <;> simp
  have hadded : s.added { s with diags := s.diags.push ⟨q, span⟩ } = [⟨q, span⟩] :=
    State.added_of_append Array.toList_push
  refine ⟨none, _, rfl, (hs.onward ⟨hle, rfl, rfl, ?_⟩).failed hD ⟨⟨q, span⟩, ?_, ?_⟩⟩
  · rw [hadded]
    exact List.forall_mem_singleton.mpr hcycle
  · exact State.mem_added_right hs.le hle (hadded ▸ List.mem_singleton_self _)
  · simp [Package.aliasNotes, Diagnostic.isError, hq]

theorem Gives.answered {x : Check (Option α)} {f : Option α → Check (Option β)} {E : β → Prop}
    (hx : Gives env s x (Settled p s0 D)) (hnone : f none = Pure.pure none)
    (hE : ∀ b, E b → ∃ a, D a) (hf : ∀ a s1, (∀ a', D a' ↔ a' = a) → Truthful p s0 s1 →
      Gives env s1 (f (some a)) (Settled p s0 E)) : Gives env s (x >>= f) (Settled p s0 E) := by
  refine .bind hx fun r s1 hr _ => ?_
  cases r with
  | none =>
    rw [hnone]
    refine .pure (hr.truthful.failed (fun b hb => ?_) (hr.alarmed rfl))
    obtain ⟨a, ha⟩ := hE b hb
    exact nomatch (hr.answer a).mpr ha
  | some a =>
    refine hf a s1 (fun a' => ?_) hr.truthful
    rw [← hr.answer, Option.some.injEq]
    exact eq_comm

theorem gives_plain {u : Ty} {gs : List TypeExpr} {D : Ty → Prop} (hs : Truthful p s0 s)
    (hD : ∀ v, D v ↔ gs = [] ∧ v = u) : Gives env s (plain u gs span) (Settled p s0 D) := by
  unfold plain
  by_cases hgs : gs = []
  · rw [if_pos (by simp [hgs])]
    exact .pure (hs.answered fun v => by simp [hD, hgs])
  · rw [if_neg (by simp [hgs])]
    exact gives_refuse hs rfl nofun fun v hv => hgs ((hD v).mp hv).1

end Answers

/-! ## Lists of type expressions -/

/-- The types that the type expressions denote, one after the other. -/
def DenotesAll (O : Outline) (ts : List TypeExpr) (us : List Ty) : Prop :=
  us.length = ts.length ∧ ∀ e ∈ ts.zip us, O.Denotes (fun _ => none) e.1 e.2

variable {O : Outline}

theorem denotesAll_nil {us : List Ty} : DenotesAll O [] us ↔ us = [] := by
  simp [DenotesAll]

theorem denotesAll_cons {t : TypeExpr} {ts : List TypeExpr} {us : List Ty} :
    DenotesAll O (t :: ts) us ↔
      ∃ v vs, O.Denotes (fun _ => none) t v ∧ DenotesAll O ts vs ∧ v :: vs = us := by
  cases us with
  | nil => simp [DenotesAll]
  | cons u us =>
    simp only [DenotesAll, List.length_cons, Nat.add_right_cancel_iff, List.zip_cons_cons,
      List.forall_mem_cons, List.cons.injEq]
    constructor
    · rintro ⟨hlen, hu, hus⟩
      exact ⟨u, us, hu, ⟨hlen, hus⟩, rfl, rfl⟩
    · rintro ⟨v, vs, hv, ⟨hlen, hvs⟩, rfl, rfl⟩
      exact ⟨hlen, hv, hvs⟩

section Types

variable {p : Package} {env : Env} {s0 s : State} {ts gs : List TypeExpr} {t : TypeExpr}

/-- The check settles what the type expression denotes, from any truthful state. -/
def Finds (p : Package) (s0 : State) (env : Env) (t : TypeExpr) : Prop :=
  ∀ ⦃s⦄, Truthful p s0 s →
    Gives env s (resolve t) (Settled p s0 (p.outline.Denotes (fun _ => none) t))

theorem gives_resolveAll (hts : ∀ t ∈ ts, Finds p s0 env t) (hs : Truthful p s0 s) :
    Gives env s (resolveAll ts) (Settled p s0 (DenotesAll p.outline ts)) := by
  induction ts generalizing s with
  | nil => exact .pure (hs.answered fun us => denotesAll_nil)
  | cons t ts ih =>
    refine .bind (hts t List.mem_cons_self hs) fun first s1 hfirst _ => ?_
    refine .bind (ih (fun u hu => hts u (List.mem_cons_of_mem _ hu)) hfirst.truthful)
      fun rest s2 hrest hle => .pure (hfirst.both hrest hle fun us => denotesAll_cons)

theorem gives_resolveArgs (hgs : ∀ t ∈ gs, Finds p s0 env t) (hs : Truthful p s0 s) :
    Gives env s (resolveArgs gs) (Settled p s0 fun us =>
      DenotesAll p.outline gs us ∧ ∀ u ∈ us, u.isEnum = false) := by
  refine (gives_resolveAll hgs hs).answered rfl (fun us hus => ⟨us, hus.1⟩) fun us s1 hus hs1 => ?_
  dsimp only
  have hall : DenotesAll p.outline gs us := (hus us).mpr rfl
  have hfst : (us.zip gs).map (·.1) = us := List.map_fst_zip (Nat.le_of_eq hall.1)
  cases hfind : (us.zip gs).find? (·.1.isEnum) with
  | some e =>
    refine gives_refuse hs1 rfl nofun fun vs hvs => ?_
    have hmem : e.1 ∈ us := by
      rw [← hfst]
      exact List.mem_map_of_mem (List.mem_of_find?_eq_some hfind)
    obtain rfl : vs = us := (hus vs).mp hvs.1
    have henum := List.find?_some hfind
    rw [hvs.2 e.1 hmem] at henum
    cases henum
  | none =>
    refine .pure (hs1.answered fun vs => ⟨fun hvs => (hus vs).mp hvs.1, ?_⟩)
    rintro rfl
    refine ⟨hall, fun u hu => ?_⟩
    rw [← hfst] at hu
    obtain ⟨e, he, rfl⟩ := List.mem_map.mp hu
    simpa using List.find?_eq_none.mp hfind e he

variable {span : Span} {name : Ident}

theorem gives_request {template : Template} {types : List Ty} (hs : Truthful p s0 s) :
    Gives env s (request template types span) fun _ s' => Truthful p s0 s' := by
  unfold request
  split
  · exact .pure hs
  · exact ⟨(), _, rfl, hs.onward (.of_append (by constructor <;> simp) rfl rfl
      (List.forall_mem_nil _) (List.append_nil _).symm)⟩

theorem exists_arityProblem {required given : Nat} (h : required ≠ given) :
    ∃ q, arityProblem? required given = some q ∧ q.severity = .error ∧ ∀ name, q ≠ .cycle name := by
  unfold arityProblem?
  rw [if_neg h]
  repeat' split
  all_goals exact ⟨_, rfl, rfl, nofun⟩

/-- The type of a struct that takes the type arguments. -/
def StructDenotes (O : Outline) (id : StructId) (gs : List TypeExpr) (v : Ty) : Prop :=
  O.arity id = gs.length ∧ ∃ us, DenotesAll O gs us ∧ (∀ u ∈ us, u.isEnum = false) ∧
    v = .struct id (O.name id) us

theorem gives_resolveStruct {id : StructId} (henv : env.package = p)
    (hgs : ∀ t ∈ gs, Finds p s0 env t) (hs : Truthful p s0 s) :
    Gives env s (resolveStruct id gs span) (Settled p s0 (StructDenotes p.outline id gs)) := by
  refine .package ?_
  rw [henv]
  dsimp only
  by_cases harity : (p.struct id).generics.length = gs.length
  · rw [show arityProblem? (p.struct id).generics.length gs.length = none from if_pos harity]
    refine (gives_resolveArgs hgs hs).answered rfl ?_ fun us s1 hus hs1 => ?_
    · rintro v ⟨-, us, hus, henum, -⟩
      exact ⟨us, hus, henum⟩
    · have hD : ∀ v, StructDenotes p.outline id gs v ↔ v = .struct id (p.struct id).name us := by
        intro v
        constructor
        · rintro ⟨-, vs, hvs, henum, rfl⟩
          rw [(hus vs).mp ⟨hvs, henum⟩]
          rfl
        · rintro rfl
          obtain ⟨hall, henum⟩ := (hus us).mpr rfl
          exact ⟨harity, us, hall, henum, rfl⟩
      cases us with
      | nil => exact .pure (hs1.answered hD)
      | cons u us =>
        exact .bind (gives_request hs1) fun _ s2 hs2 _ => .pure (hs2.answered hD)
  · obtain ⟨q, hproblem, hq, hcycle⟩ := exists_arityProblem harity
    rw [hproblem]
    exact gives_refuse hs hq hcycle fun v hv => harity hv.1

/-- What a name denotes with type arguments, by what it stands for. -/
def NameDenotes (O : Outline) (gs : List TypeExpr) (v : Ty) : Option Outline.Referent → Prop
  | some (.type u) => gs = [] ∧ v = u
  | some (.defined (.typeAlias id)) => gs = [] ∧ O.Stands id v
  | some (.defined (.enum id)) => gs = [] ∧ v = .enum id (O.enumName id)
  | some (.defined (.trait id)) => gs = [] ∧ v = .trait id (O.traitName id)
  | some (.defined (.struct id)) => StructDenotes O id gs v
  | _ => False

theorem denotes_named {v : Ty} :
    O.Denotes (fun _ => none) (.named name gs span) v ↔
      NameDenotes O gs v (O.referent? (fun _ => none) name.name) := by
  constructor
  · intro h
    cases h with
    | known h | enum h | trait h =>
      rw [h]
      exact ⟨rfl, rfl⟩
    | typeAlias h ht =>
      rw [h]
      exact ⟨rfl, ht⟩
    | struct h hgs hlen hus henum =>
      rw [h]
      exact ⟨hgs, _, ⟨hlen, hus⟩, henum, rfl⟩
  · intro h
    cases hreferent : O.referent? (fun _ => none) name.name with
    | none =>
      rw [hreferent] at h
      exact h.elim
    | some r =>
      rw [hreferent] at h
      cases r with
      | type u =>
        obtain ⟨rfl, rfl⟩ := h
        exact .known hreferent
      | defined m =>
        cases m with
        | typeAlias id =>
          obtain ⟨rfl, hv⟩ := h
          exact .typeAlias hreferent hv
        | enum id =>
          obtain ⟨rfl, rfl⟩ := h
          exact .enum hreferent
        | trait id =>
          obtain ⟨rfl, rfl⟩ := h
          exact .trait hreferent
        | struct id =>
          obtain ⟨harity, us, ⟨hlen, hus⟩, henum, rfl⟩ := h
          exact .struct hreferent harity hlen hus henum
        | func id | «global» id => exact h.elim

theorem gives_resolveDefined (henv : env.package = p) (hgs : ∀ t ∈ gs, Finds p s0 env t)
    (halias : ∀ id, p.lookup? name.name = some (.typeAlias id) → Gives env s (aliasType id) (Settled p s0 (p.outline.Stands id)))
    (hs : Truthful p s0 s) : Gives env s (resolveDefined name gs span) (Settled p s0 fun v =>
      NameDenotes p.outline gs v ((p.lookup? name.name).map .defined)) := by
  refine .package ?_
  rw [henv]
  cases hname : p.lookup? name.name with
  | none => exact gives_refuse hs rfl nofun fun _ hv => hv
  | some m =>
    cases m with
    | typeAlias id =>
      refine (halias id hname).answered rfl (fun v hv => ⟨v, hv.2⟩) fun u s1 hu hs1 => ?_
      by_cases hnil : gs = []
      · simp only [hnil, List.isEmpty_nil, if_true]
        exact .pure (hs1.answered fun v => by simp [NameDenotes, hu])
      · simp only [List.isEmpty_eq_false_iff.mpr hnil]
        have hD : ∀ v, ¬ NameDenotes p.outline gs v (some (.defined (.typeAlias id))) :=
          fun v hv => hnil hv.1
        by_cases hstruct : u.isStruct = true
        · simp only [hstruct, if_true]
          exact gives_refuse hs1 rfl nofun hD
        · simp only [hstruct]
          exact gives_refuse hs1 rfl nofun hD
    | enum id =>
      by_cases hnil : gs = []
      · simp only [hnil, List.isEmpty_nil, if_true]
        exact .pure (hs.answered fun v => ⟨fun hv => hv.2, fun hv => ⟨rfl, hv⟩⟩)
      · simp only [List.isEmpty_eq_false_iff.mpr hnil]
        exact gives_refuse hs rfl nofun fun v hv => hnil hv.1
    | trait id => exact gives_plain hs fun v => Iff.rfl
    | struct id => exact gives_resolveStruct henv hgs hs
    | func id => exact gives_refuse hs rfl nofun fun _ hv => hv
    | «global» id => exact gives_refuse hs rfl nofun fun _ hv => hv

/-- Nothing is bound where the context is. -/
structure Bare (c : Context) : Prop where
  block : c.block = none
  templates : c.templates = []
  bindings : c.bindings = {}

theorem gives_resolveNamed (henv : env.package = p) (hc : Bare env.context)
    (hgs : ∀ t ∈ gs, Finds p s0 env t)
    (halias : ∀ id, p.outline.Mentions (.named name gs span) id → Gives env s (aliasType id) (Settled p s0 (p.outline.Stands id)))
    (hs : Truthful p s0 s) : Gives env s (resolveNamed name gs span)
      (Settled p s0 (p.outline.Denotes (fun _ => none) (.named name gs span))) := by
  have hmention : ∀ id, p.outline.referent? (fun _ => none) name.name =
      some (.defined (.typeAlias id)) → p.outline.Mentions (.named name gs span) id :=
    fun id hid => ⟨name, gs, span, .self, hid⟩
  refine Gives.mono (Q := Settled p s0 fun v => NameDenotes p.outline gs v
    (p.outline.referent? (fun _ => none) name.name)) ?_ ?_
  · unfold resolveNamed
    refine .context ?_
    have hunbound : env.context.bindings.lookup? name.name = none := by
      rw [hc.bindings]
      rfl
    simp only [hunbound, hc.templates, List.contains_nil, Bool.false_eq_true, if_false]
    unfold Outline.referent? at hmention ⊢
    cases hcategory : Category.ofName? name.name with
    | some primitive => exact gives_plain hs fun v => Iff.rfl
    | none =>
      refine .bind (M := fun r s1 => r = none ∧ s1 = s) ?_ ?_
      · unfold useLocalAlias
        refine .context ?_
        rw [hc.block]
        exact .pure ⟨rfl, rfl⟩
      · rintro _ _ ⟨rfl, rfl⟩ -
        cases hbuiltin : builtinType? name.name with
        | some u => exact gives_plain hs fun v => Iff.rfl
        | none =>
          refine gives_resolveDefined henv hgs (fun id hid => ?_) hs
          refine halias id (hmention id ?_)
          rw [hcategory, hbuiltin]
          exact congrArg (Option.map _) hid
  · intro r s' h
    exact ⟨⟨fun v => (h.answer v).trans denotes_named.symm, h.alarmed⟩, h.truthful⟩

theorem gives_resolveStep (henv : env.package = p) (hc : Bare env.context) (ht : t.Unsized)
    (hparts : ∀ u ∈ t.parts, Finds p s0 env u) (halias : ∀ id, p.outline.Mentions t id →
      Gives env s (aliasType id) (Settled p s0 (p.outline.Stands id))) (hs : Truthful p s0 s) :
    Gives env s (resolveStep t) (Settled p s0 (p.outline.Denotes (fun _ => none) t)) := by
  rcases t.named_or_compound with ⟨name, gs, span, rfl⟩ | hcompound
  · exact gives_resolveNamed henv hc hparts halias hs
  have hsize : t.size? = none := by
    refine Option.eq_none_iff_forall_ne_some.mpr fun e he => ?_
    obtain ⟨u, span, hu⟩ := TypeExpr.eq_array_of_size? he
    exact ht e u span (hu ▸ .self)
  have hden (v : Ty) : p.outline.Denotes (fun _ => none) t v ↔ ∃ us, DenotesAll p.outline t.parts us ∧
      t.admits us = true ∧ t.assemble us none = v := by
    simp [Outline.denotes_compound hcompound, hsize, DenotesAll]
  rw [Gives, resolveStep_compound hcompound]
  refine (gives_resolveAll hparts hs).answered rfl (fun v hv => ?_) fun us s1 hus hs1 => ?_
  · obtain ⟨us, hus, -⟩ := (hden v).mp hv
    exact ⟨us, hus⟩
  simp only [hus, exists_eq_left] at hden
  simp only [finish, hsize]
  split
  next hadmits => exact .pure (hs1.answered fun v => by simp [hden, hadmits, eq_comm])
  next hadmits => exact gives_refuse hs1 rfl (by simp) fun v hv => hadmits ((hden v).mp hv).1

end Types

/-! ## Aliases -/

theorem gives_aliasType {p : Package} {o : Options} {s0 s : State} {c : Context} {n : Nat}
    {id : AliasId} (hp : p.Unresolved) (hs : Truthful p s0 s)
    (hcycle : id ∈ c.aliasPath →
      ∀ a ∈ cycleMembers c.aliasPath id, TransGen p.outline.Refers a a)
    (hopen : id ∉ c.aliasPath → ∃ r s1,
      (resolveAt p o n (c.openAlias id) (p.typeAlias id).decl.target).run s = some (r, s1) ∧
        Settled p s0 (p.outline.Stands id) r s1) :
    Gives (envAt p o n c) s (aliasType id) (Settled p s0 (p.outline.Stands id)) := by
  have htype := hp.types id
  have hunbroken : id ∉ p.brokenAliases := by
    rw [hp.unbroken]
    exact List.not_mem_nil
  by_cases hcyclic : id ∈ s.cyclicAliases
  · exact ⟨none, s, AliasRun.run (.cyclic htype hcyclic), hs.cyclic id hcyclic, hs⟩
  cases hanswer : s.aliasCache.lookup id with
  | some r =>
    obtain ⟨r, rfl, hr⟩ := hs.answers hanswer
    exact ⟨r, s, AliasRun.run (.answered htype hunbroken hcyclic hanswer), hr, hs⟩
  | none =>
    have hfresh : Fresh p id s := ⟨htype, hunbroken, hcyclic, hanswer⟩
    by_cases hpath : id ∈ c.aliasPath
    · have hcycle := hcycle hpath
      have hself : id ∈ cycleMembers c.aliasPath id := List.mem_append_right _ List.mem_cons_self
      refine ⟨none, s.closeCycle c.aliasPath id (p.typeAlias id), AliasRun.run (.cycle hfresh hpath),
        hs.close (by constructor <;> simp [State.closeCycle]) (State.added_of_append Array.toList_push) rfl rfl rfl
        ⟨id, hcycle id hself⟩ fun a ha => Outline.not_stands_of_cycle (hcycle a ha)⟩
    · obtain ⟨r, s1, hrun, hr⟩ := hopen hpath
      exact ⟨_, _, AliasRun.run (.opened hfresh hpath hrun),
        hr.remember (by constructor <;> simp [State.remember])
          (State.added_of_append (List.append_nil _).symm) rfl rfl⟩

end Check

end JaneCheck
