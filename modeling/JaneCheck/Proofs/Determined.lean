import JaneCheck.Proofs.Demand.Covering
import JaneCheck.Proofs.Losses
import Mathlib.Data.List.Zip

/-!
# Types under type arguments

The types of a template are resolved once while its parameters stand for
themselves, and then again under each list of type arguments. What can go wrong
the second time only is a rule on pointers or references (`Clash`), by
`Denotes.instantiate`. What a type expression denotes is then found, unless an
array size in it has no value or it names an alias that failed before
(`Undetermined`), by `determines_resolveAt`.
-/

namespace JaneCheck

open Syntax (Expr Ident TypeExpr)

variable {u v : Ty}

namespace Outline

variable {O : Outline}

/-! ## Instances of type expressions -/

/-- Somewhere in the type expression a pointer or a reference leads to a type
that it must not lead to. -/
inductive Clash (O : Outline) (b : String → Option Ty) (t : TypeExpr) : Prop
  | pointer {u span a} (h : (TypeExpr.pointer u span).Occurs t) (hd : O.Denotes b u a)
      (hbad : a.isReference = true ∨ a.isRawPointer = true)
  | reference {u span a} (h : (TypeExpr.reference u span).Occurs t) (hd : O.Denotes b u a)
      (hbad : a.validForReference = false)

variable {b : String → Option Ty}

theorem Clash.part {t u : TypeExpr} (h : O.Clash b u) (hu : u ∈ t.parts) : O.Clash b t := by
  cases h with
  | pointer ho hd hbad => exact .pointer (.part hu ho) hd hbad
  | reference ho hd hbad => exact .reference (.part hu ho) hd hbad

/-- All have a meaning or one of them clashes. -/
theorem denotes_all_or_clash {ts : List TypeExpr} {vs : List Ty} (hlen : vs.length = ts.length)
    (h : ∀ e ∈ ts.zip vs, O.Clash b e.1 ∨ ∃ u, O.Denotes b e.1 u) :
    (∃ t ∈ ts, O.Clash b t) ∨
      ∃ us : List Ty, us.length = ts.length ∧ ∀ e ∈ ts.zip us, O.Denotes b e.1 e.2 := by
  replace h : ∀ t ∈ ts, O.Clash b t ∨ ∃ u, O.Denotes b t u := fun t ht =>
    (exists_mem_zip hlen ht).elim fun v hv => h (t, v) hv
  clear hlen
  induction ts with
  | nil => exact .inr ⟨[], rfl, by simp⟩
  | cons t ts ih =>
    rcases h t (by simp) with hclash | ⟨u, hu⟩
    · exact .inl ⟨t, by simp, hclash⟩
    rcases ih fun v hv => h v (by simp [hv]) with ⟨v, hv, hclash⟩ | ⟨us, hlen, hus⟩
    · exact .inl ⟨v, by simp [hv], hclash⟩
    · refine .inr ⟨u :: us, by simp [hlen], fun e he => ?_⟩
      rcases List.mem_cons.mp he with rfl | he
      · exact hu
      · exact hus e he

/-- What the rules on pointers and references do not admit is a clash. -/
theorem clash_of_not_admits {t : TypeExpr} {us : List Ty} (hlen : us.length = t.parts.length)
    (hus : ∀ e ∈ t.parts.zip us, O.Denotes b e.1 e.2) (h : t.admits us = false) : O.Clash b t := by
  cases t with
  | pointer t span =>
    obtain ⟨u, rfl⟩ := List.length_eq_one_iff.mp hlen
    rw [TypeExpr.admits, Bool.not_eq_false', Bool.or_eq_true] at h
    exact .pointer .self (hus _ List.mem_cons_self) h
  | reference t span =>
    obtain ⟨u, rfl⟩ := List.length_eq_one_iff.mp hlen
    exact .reference .self (hus _ List.mem_cons_self) h
  | _ => cases h

/-- Under other types for the bound names, none of them an enum where the first
is none, a type expression still denotes a type or clashes. -/
theorem Denotes.instantiate {b' : String → Option Ty} {t : TypeExpr} (h : O.Denotes b t u)
    (hb : ∀ name, (b name).map Ty.isEnum = (b' name).map Ty.isEnum) :
    O.Clash b' t ∨ ∃ u', O.Denotes b' t u' := by
  induction h using Denotes.inductionOnParts with
  | @known b name span u h =>
    refine .inr ?_
    cases hn : b name.name with
    | some v =>
      obtain ⟨v', hn', -⟩ := Option.map_eq_some_iff.mp ((hn ▸ hb name.name).symm)
      exact ⟨v', .known (referent?_bound hn')⟩
    | none =>
      have hn' : b' name.name = none := by simpa [hn] using (hb name.name).symm
      refine ⟨u, .known ?_⟩
      rw [← h]
      simp [referent?, hn, hn']
  | @typeAlias _ name _ _ _ h ht _ =>
    exact .inr ⟨_, .typeAlias (referent?_defined (hb name.name) h) ht⟩
  | @enum _ name _ _ h => exact .inr ⟨_, .enum (referent?_defined (hb name.name) h)⟩
  | @trait _ name _ _ h => exact .inr ⟨_, .trait (referent?_defined (hb name.name) h)⟩
  | @struct b name gs span id us h hgs hlen hus henum ih =>
    rcases denotes_all_or_clash hlen fun e he => ih e he hb with ⟨t, ht, hclash⟩ | ⟨vs, hlen', hvs⟩
    · exact .inl (hclash.part ht)
    refine .inr ⟨_, .struct (referent?_defined (hb name.name) h) hgs hlen' hvs fun v hv => ?_⟩
    -- the same argument is no enum under the first types
    rw [← List.map_snd_zip (Nat.le_of_eq hlen')] at hv
    obtain ⟨⟨t, w⟩, hw, rfl⟩ := List.mem_map.mp hv
    obtain ⟨w', hw'⟩ := exists_mem_zip hlen (List.of_mem_zip hw).1
    have heq : w'.isEnum = w.isEnum := (hus _ hw').isEnum_eq (hvs _ hw) hb
    rw [← heq]
    exact henum w' (List.of_mem_zip hw').2
  | @compound b t us n ht hlen hus hadmits hn ih =>
    rcases denotes_all_or_clash hlen fun e he => ih e he hb with ⟨t, ht, hclash⟩ | ⟨vs, hlen', hvs⟩
    · exact .inl (hclash.part ht)
    cases hadmits' : t.admits vs with
    | true => exact .inr ⟨_, .assemble ht hlen' hvs hadmits' hn⟩
    | false => exact .inl (clash_of_not_admits hlen' hvs hadmits')

/-! ## One meaning -/

/-- The two types differ in the sizes of arrays at most: the rules on pointers
and references see them alike. -/
structure Alike (u v : Ty) : Prop where
  isReference : u.isReference = v.isReference
  isPointer : u.isPointer = v.isPointer
  isArray : u.isArray = v.isArray
  isRawPointer : u.isRawPointer = v.isRawPointer
  raw : u = .base .raw ↔ v = .base .raw

theorem Alike.refl (u : Ty) : Alike u u := ⟨rfl, rfl, rfl, rfl, .rfl⟩

theorem Alike.pointer (h : Alike u v) : Alike (.pointer u) (.pointer v) := by
  have hraw : ∀ w : Ty, (Ty.pointer w).isRawPointer = true ↔ w = .base .raw := by
    intro w
    constructor
    · unfold Ty.isRawPointer
      split
      next he => exact fun _ => (Ty.pointer.inj he)
      next => simp
    · rintro rfl
      rfl
  refine ⟨rfl, rfl, rfl, ?_, by simp⟩
  rw [Bool.eq_iff_iff, hraw, hraw]
  exact h.raw

theorem Denotes.alike {t : TypeExpr} (h : O.Denotes b t u) (h' : O.Denotes b t v) : Alike u v := by
  induction h generalizing v with
  | known h =>
    cases h' with
    | known h' =>
      rw [h] at h'
      cases h'
      exact .refl _
    | typeAlias h' | enum h' | trait h' | struct h' =>
      rw [h] at h'
      cases h'
  | typeAlias h _ ih =>
    cases h' with
    | typeAlias h' ht' =>
      rw [h] at h'
      cases h'
      exact ih ht'
    | known h' | enum h' | trait h' | struct h' =>
      rw [h] at h'
      cases h'
  | enum h | trait h | struct h =>
    cases h' with
    | known h' | typeAlias h' | enum h' | trait h' | struct h' =>
      rw [h] at h'
      cases h'
      try exact ⟨rfl, rfl, rfl, rfl, by simp⟩
  | pointer _ _ _ ih =>
    cases h' with
    | pointer h' => exact (ih h').pointer
  | _ =>
    cases h'
    exact ⟨rfl, rfl, rfl, rfl, by simp⟩

theorem Denotes.validForReference_eq {t : TypeExpr} (h : O.Denotes b t u) (h' : O.Denotes b t v) :
    u.validForReference = v.validForReference := by
  have halike := h.alike h'
  simp only [Ty.validForReference, halike.isReference, halike.isPointer, halike.isArray,
    h.isEnum_eq h' fun _ => rfl]

/-- The rules on pointers and references see one meaning of the parts as any other. -/
theorem admits_congr {t : TypeExpr} {us vs : List Ty} (hlen : us.length = t.parts.length)
    (hus : ∀ e ∈ t.parts.zip us, O.Denotes b e.1 e.2) (hlen' : vs.length = t.parts.length)
    (hvs : ∀ e ∈ t.parts.zip vs, O.Denotes b e.1 e.2) : t.admits us = t.admits vs := by
  cases t with
  | pointer t span =>
    obtain ⟨u, rfl⟩ := List.length_eq_one_iff.mp hlen
    obtain ⟨v, rfl⟩ := List.length_eq_one_iff.mp hlen'
    have halike : Alike u v := (hus (t, u) List.mem_cons_self).alike (hvs (t, v) List.mem_cons_self)
    simp [TypeExpr.admits, halike.isReference, halike.isRawPointer]
  | reference t span =>
    obtain ⟨u, rfl⟩ := List.length_eq_one_iff.mp hlen
    obtain ⟨v, rfl⟩ := List.length_eq_one_iff.mp hlen'
    exact (hus (t, u) List.mem_cons_self).validForReference_eq (hvs (t, v) List.mem_cons_self)
  | _ => rfl

end Outline

namespace Check

/-! ## Resolution of what is denoted -/

/-- What may leave a type expression without a type although it denotes one. -/
inductive Undetermined (p : Package) (o : Options) (c : Context) (t : TypeExpr) : Prop
  | size {e u span n s s'} (h : (TypeExpr.array (some e) u span).Occurs t) (he : Computed e)
      (hrun : (arraySize e (envAt p o n c)).run s = some (none, s'))
  | broken {name gs span id} (h : (TypeExpr.named name gs span).Occurs t)
      (hm : p.lookup? name.name = some (.typeAlias id)) (hb : id ∈ p.brokenAliases)

theorem Undetermined.part {p : Package} {o : Options} {c : Context} {t u : TypeExpr}
    (h : Undetermined p o c u) (hu : u ∈ t.parts) : Undetermined p o c t := by
  cases h with
  | size ho he hrun => exact .size (.part hu ho) he hrun
  | broken ho hm hb => exact .broken (.part hu ho) hm hb

/-- The outcome for a type expression that denotes something. -/
structure Determined (D : Demand) (p : Package) (o : Options) (c : Context) (t : TypeExpr)
    (a : Option Ty) (s : State) : Prop where
  covered : D.CoveredState s
  meant : ∀ u ∈ a, D.Denotes c.bound t u
  none : a = none → Undetermined p o c t

/-- The level finds what is denoted. -/
def Determines (D : Demand) (p : Package) (o : Options) (c : Context) (n : Nat) : Prop :=
  ∀ ⦃t u s⦄, t.Within D.span → D.Denotes c.bound t u → D.CoveredState s →
    Leads (.grants D) (envAt p o n c) s (resolve t) (Determined D p o c t)

section Names

variable {G : Guard} {env : Env} {O : Outline} {name : Ident} {gs : List TypeExpr} {span : Span}
  {s : State} {Q : Option Ty → State → Prop}

/-- Outside of blocks a name is resolved as what it stands for. -/
theorem leads_resolveNamed {r : Outline.Referent}
    (hr : O.referent? env.context.bound name.name = some r) (hblock : env.context.block = none)
    (htype : ∀ u, r = .type u → gs = [] ∧ Q (some u) s)
    (hdefined : ∀ m, r = .defined m → Leads G env s (resolveDefined name gs span) Q) :
    Leads G env s (resolveNamed name gs span) Q := by
  have hplain : ∀ {u}, O.referent? env.context.bound name.name = some (.type u) →
      Leads G env s (plain u gs span) Q := by
    intro u hu
    rw [hr] at hu
    obtain ⟨rfl, hq⟩ := htype u (Option.some.inj hu)
    exact .pure hq
  refine .context ?_
  dsimp only
  split
  next t ht => exact hplain (Outline.referent?_bound (by simp [Context.bound, ht]))
  next hfree =>
  replace hfree := Option.eq_none_iff_forall_ne_some.mpr hfree
  split
  next hin =>
    refine hplain (Outline.referent?_bound ?_)
    simp [Context.bound, hfree, List.contains_iff_mem.mp hin]
  next hout =>
  have hunbound : env.context.bound name.name = none := by simpa [Context.bound, hfree] using hout
  split
  next k hk => exact hplain (by simp [Outline.referent?, hunbound, hk])
  next hcategory =>
  replace hcategory := Option.eq_none_iff_forall_ne_some.mpr hcategory
  refine .bind (M := fun a s' => a = none ∧ s' = s) (leads_useLocalAlias hblock ⟨rfl, rfl⟩) ?_
  rintro _ _ _ ⟨rfl, rfl⟩
  dsimp only
  split
  next t ht => exact hplain (by simp [Outline.referent?, hunbound, hcategory, ht])
  next hbuiltin =>
    replace hbuiltin := Option.eq_none_iff_forall_ne_some.mpr hbuiltin
    cases r with
    | type u => simp [Outline.referent?, hunbound, hcategory, hbuiltin] at hr
    | defined m => exact hdefined m rfl

end Names

section Resolution

variable {D : Demand} {p : Package} {o : Options} {n : Nat} {c : Context} {s : State}

/-- The outcome for a list of type expressions that each denote something. -/
theorem determines_resolveAll (hbelow : Determines D p o c n) {ts : List TypeExpr}
    (hts : ∀ t ∈ ts, t.Within D.span) (hden : ∀ t ∈ ts, ∃ u, D.Denotes c.bound t u)
    (hs : D.CoveredState s) :
    Leads (.grants D) (envAt p o n c) s (resolveAll ts) fun a s' => D.CoveredState s' ∧
      (a = none → ∃ t ∈ ts, Undetermined p o c t) ∧
      ∀ us ∈ a, us.length = ts.length ∧ ∀ e ∈ ts.zip us, D.Denotes c.bound e.1 e.2 := by
  induction ts generalizing s with
  | nil =>
    refine .pure ⟨hs, by simp, ?_⟩
    rintro _ ⟨⟩
    simp
  | cons t ts ih =>
    rw [List.forall_mem_cons] at hts hden
    obtain ⟨u, hu⟩ := hden.1
    refine .bind (hbelow hts.1 hu hs) fun first s1 _ hfirst => ?_
    refine .bind (ih hts.2 hden.2 hfirst.covered) fun rest s2 _ hrest => .pure ⟨hrest.1, fun hnone => ?_, ?_⟩
    · rcases none_of_both hnone with hnone | hnone
      · exact ⟨t, by simp, hfirst.none hnone⟩
      · obtain ⟨w, hw, hun⟩ := hrest.2.1 hnone
        exact ⟨w, by simp [hw], hun⟩
    · intro us hus
      obtain ⟨v, vs, hv, hvs, rfl⟩ := exists_of_both hus
      obtain ⟨hlen, hmeant⟩ := hrest.2.2 vs hvs
      exact ⟨congrArg (· + 1) hlen, List.forall_mem_cons.mpr ⟨hfirst.meant v hv, hmeant⟩⟩

/-- Arguments that denote no enum are accepted. -/
theorem determines_resolveArgs (hbelow : Determines D p o c n) {ts : List TypeExpr}
    (hts : ∀ t ∈ ts, t.Within D.span)
    (hden : ∀ t ∈ ts, ∃ u, D.Denotes c.bound t u ∧ u.isEnum = false) (hs : D.CoveredState s) :
    Leads (.grants D) (envAt p o n c) s (resolveArgs ts) fun a _ =>
      a = none → ∃ t ∈ ts, Undetermined p o c t := by
  refine .bind (determines_resolveAll hbelow hts
    (fun t ht => (hden t ht).imp fun _ h => h.1) hs) fun a s1 _ ha => ?_
  cases a with
  | none => exact .pure ha.2.1
  | some us =>
    dsimp only
    split
    next v t hfind =>
      have hmem : (v, t) ∈ us.zip ts := List.mem_of_find?_eq_some hfind
      obtain ⟨u, hu, henum⟩ := hden t (List.of_mem_zip hmem).2
      have hv : (t, v) ∈ ts.zip us := by
        rw [← List.zip_swap]
        exact List.mem_map_of_mem hmem
      have heq := hu.isEnum_eq ((ha.2.2 us rfl).2 _ hv) fun _ => rfl
      have hfound : v.isEnum = true := by simpa using List.find?_some hfind
      rw [← heq, henum] at hfound
      cases hfound
    next => exact .pure (by simp)

/-- Every alias of the package was resolved or has failed. -/
def Tried (p : Package) : Prop :=
  ∀ {name id}, p.lookup? name = some (.typeAlias id) →
    (∃ t, (p.typeAlias id).type = some t) ∨ id ∈ p.brokenAliases

theorem determines_resolveDefined (hbelow : Determines D p o c n) (hp : D.CoveredPackage p)
    (htried : Tried p) {name : Ident} {gs : List TypeExpr} {span : Span}
    (hgs : ∀ g ∈ gs, g.Within D.span) (hu : D.Denotes c.bound (.named name gs span) u)
    (hmeaning : ∀ v, D.referent? c.bound name.name ≠ some (.type v)) (hs : D.CoveredState s) :
    Leads (.grants D) (envAt p o n c) s (resolveDefined name gs span)
      fun a _ => a = none → Undetermined p o c (.named name gs span) := by
  refine .package ?_
  have hlookup : ∀ {m}, D.referent? c.bound name.name = some (.defined m) →
      p.lookup? name.name = some m := fun h =>
    (hp.meaning name.name).trans (Outline.meaning_of_referent? h)
  cases hu with
  | known h => exact absurd h (hmeaning _)
  | @typeAlias _ _ _ id _ h ht =>
    have hm := hlookup h
    simp only [envAt, hm]
    intro a s' hrun _ hnone
    obtain ⟨r, s1, halias, hrest⟩ := run_bind.mp hrun
    rcases htried hm with ⟨t, htype⟩ | hbroken
    · have hsome : r = some t := by
        cases aliasRun_of_run halias with
        | typed h => exact h.symm.trans htype
        | broken h | cyclic h | answered h => simp [htype] at h
        | cycle h | opened h => simp [h.type] at htype
      subst hsome
      cases hrest
      cases hnone
    · exact .broken .self hm hbroken
  | enum h =>
    simp only [envAt, hlookup h]
    exact .pure (by simp)
  | trait h =>
    simp only [envAt, hlookup h]
    exact .pure (by simp)
  | @struct _ _ _ _ id us h harity hlen hus henum =>
    simp only [envAt, hlookup h]
    have hden : ∀ t ∈ gs, ∃ u, D.Denotes c.bound t u ∧ u.isEnum = false := by
      intro t ht
      obtain ⟨v, hv⟩ := Outline.exists_mem_zip hlen ht
      exact ⟨v, hus _ hv, henum v (List.of_mem_zip hv).2⟩
    refine .package ?_
    have hfits : arityProblem? (p.struct id).generics.length gs.length = none := by
      simp [arityProblem?, (hp.structs id).arity, harity]
    dsimp only
    rw [hfits]
    refine .bind (determines_resolveArgs hbelow hgs hden hs) fun a s1 _ ha => ?_
    cases a with
    | none =>
      obtain ⟨t, ht, hun⟩ := ha rfl
      exact .pure fun _ => hun.part ht
    | some types =>
      dsimp only
      split
      · exact .after fun _ _ _ => .pure (by simp)
      · exact .pure (by simp)

theorem determines_resolveStep (hbelow : Determines D p o c n) (hp : D.CoveredPackage p)
    (htried : Tried p) (hblock : c.block = none) {t : TypeExpr} (ht : t.Within D.span)
    (hu : D.Denotes c.bound t u) (hs : D.CoveredState s) :
    Leads (.grants D) (envAt p o n c) s (resolveStep t)
      fun a _ => a = none → Undetermined p o c t := by
  rcases t.named_or_compound with ⟨name, gs, span, rfl⟩ | hcompound
  · have href : ∃ r, D.referent? c.bound name.name = some r ∧ ∀ v, r = .type v → gs = [] := by
      cases hu with
      | known h => exact ⟨_, h, fun _ _ => rfl⟩
      | typeAlias h | enum h | trait h | struct h => exact ⟨_, h, fun _ h => by cases h⟩
    obtain ⟨r, hr, hgs⟩ := href
    refine leads_resolveNamed hr hblock (fun v hv => ⟨hgs v hv, by simp⟩) ?_
    rintro m rfl
    exact determines_resolveDefined hbelow hp htried ht.parts hu (by simp [hr]) hs
  obtain ⟨us, _, ⟨hlen, hus⟩, hadmits, -⟩ := (Outline.denotes_compound hcompound).mp hu
  have hden : ∀ t' ∈ t.parts, ∃ u, D.Denotes c.bound t' u := fun t' ht' =>
    (Outline.exists_mem_zip hlen ht').imp fun v => hus (t', v)
  rw [Leads, resolveStep_compound hcompound]
  refine Leads.bind (determines_resolveAll hbelow ht.parts hden hs) fun types s1 _ htypes => ?_
  cases types with
  | none =>
    obtain ⟨t', ht', hun⟩ := htypes.2.1 rfl
    exact .pure fun _ => hun.part ht'
  | some vs =>
    obtain ⟨hlen', hvs⟩ := htypes.2.2 vs rfl
    rw [finish, if_pos (Outline.admits_congr hlen' hvs hlen hus ▸ hadmits)]
    split
    · exact .pure (by simp)
    next e he =>
      refine .after fun m s2 hrun => .pure fun hnone => ?_
      cases m with
      | none =>
        obtain ⟨_, _, rfl⟩ := TypeExpr.eq_array_of_size? he
        refine .size .self ?_ hrun
        rintro k place rfl
        exact (leads_arraySize_int (G := .any) hrun trivial).1 rfl
      | some m => cases hnone

/-- Outside of blocks, what a type expression denotes is found unless a size has
no value or an alias has failed. -/
theorem determines_resolveAt (hp : D.CoveredPackage p) (htried : Tried p)
    (hc : D.CoveredContext c) (hblock : c.block = none) (n : Nat) : Determines D p o c n := by
  induction n with
  | zero => exact fun t u s _ _ _ a s' he => by cases he
  | succ n ih =>
    intro t u s ht hu hs a s' he hg
    obtain ⟨hs', hmeant⟩ :=
      (Demand.covered_levels o hp (n + 1) hc).resolveIn hc ht hs he hg
    exact ⟨hs', hmeant.denotes hp.strict hblock, determines_resolveStep ih hp htried hblock ht hu hs he hg⟩

end Resolution

end Check

end JaneCheck
