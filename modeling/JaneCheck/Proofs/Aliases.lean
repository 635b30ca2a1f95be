import JaneCheck.Proofs.Aliases.Types
import JaneCheck.Proofs.Collected
import Mathlib.Data.List.Forall2

/-!
# What aliases stand for

An alias is not opened again while it is open, so with enough levels below resolution
ends. What it finds is what the type expression denotes. So an alias stands for what
its target resolves to when all aliases in it are replaced, whatever is asked for
before and wherever it is asked from.
-/

namespace JaneCheck.Check

open Relation (TransGen)

open Syntax (TypeExpr)

/-! ## Levels below -/

theorem lt_of_mentions {p : Package} (hp : p.Unresolved) {t : TypeExpr} {id : AliasId}
    (h : p.outline.Mentions t id) : id < p.aliases.size := by
  obtain ⟨name, gs, span, -, hname⟩ := h
  exact hp.known (Outline.meaning_of_referent? hname)

theorem sizeOf_lt_of_mem_parts {t u : TypeExpr} (h : u ∈ t.parts) : sizeOf u < sizeOf t := by
  cases t with
  | named name gs span | tuple gs span =>
    have hlt := List.sizeOf_lt_of_mem (show u ∈ gs from h)
    simp +arith only [TypeExpr.named.sizeOf_spec, TypeExpr.tuple.sizeOf_spec]
    omega
  | pointer t span | reference t span | slice t span | array size t span =>
    rw [List.mem_singleton.mp h]
    simp +arith only [TypeExpr.pointer.sizeOf_spec, TypeExpr.reference.sizeOf_spec,
      TypeExpr.slice.sizeOf_spec, TypeExpr.array.sizeOf_spec]
  | rawPointer span => cases h
  | map k v span =>
    rw [TypeExpr.map.sizeOf_spec]
    rcases List.mem_cons.mp h with rfl | h
    · omega
    · rw [List.mem_singleton.mp h]
      omega
  | function ts variadic r span =>
    rw [TypeExpr.function.sizeOf_spec]
    rcases List.mem_append.mp h with h | h
    · have hlt := List.sizeOf_lt_of_mem h
      omega
    · rw [Option.mem_toList.mp h, Option.some.sizeOf_spec]
      omega

section Levels

variable {p : Package} {o : Options} {s0 s : State} {c : Context} {n : Nat}

theorem bare_openAlias (c : Context) (id : AliasId) : Bare (c.openAlias id) := ⟨rfl, rfl, rfl⟩

/-- With enough levels below, resolution finds what the type expression denotes. -/
theorem settled_resolveAt (hp : p.Unresolved) {t : TypeExpr} (hc : Bare c)
    (halong : Along p.outline.Refers (·) c.aliasPath (p.outline.Mentions t)) (ht : t.Unsized) (hn : room p 0 c + sizeOf t ≤ n)
    (hs : Truthful p s0 s) :
    ∃ r s', (resolveAt p o n c t).run s = some (r, s') ∧
      Settled p s0 (p.outline.Denotes (fun _ => none) t) r s' := by
  induction n generalizing c t s with
  | zero =>
    have hpos : 0 < sizeOf t := by cases t <;> simp +arith
    omega
  | succ n ih =>
    show Gives (envAt p o n c) s (resolveStep t) _
    refine gives_resolveStep rfl hc ht ?_ ?_ hs
    · intro u hu s hs
      have hlt := sizeOf_lt_of_mem_parts hu
      exact ih (c := c) hc (halong.part (·.part hu)) (ht.part hu) (by omega) hs
    · intro id hid
      refine gives_aliasType hp hs (halong.cycle hid) fun hpath => ?_
      have hknown := lt_of_mentions hp hid
      have hroom := room_openAlias (k := 0) hknown (by simpa using hpath)
      have hsize := sizeOf_alias_lt hknown
      exact ih (bare_openAlias c id) (halong.opened hid (·)) (hp.unsized id) (by omega) hs

theorem room_le (c : Context) : room p 0 c ≤ (p.aliases.size + p.globals.size) * sizeOf p := by
  have hcount : ∀ path m, notOn path m ≤ m := fun path m =>
    Nat.le_trans List.countP_le_length (Nat.le_of_eq List.length_range)
  have hclosed : closed p c ≤ p.aliases.size + p.globals.size :=
    Nat.add_le_add (hcount _ _) (hcount _ _)
  exact Nat.mul_le_mul_right _ (by omega)

/-- Levels that are enough for every alias. -/
noncomputable def aliasLevels (p : Package) : Nat :=
  (p.aliases.size + p.globals.size + 1) * sizeOf p

theorem gives_aliasType_of_none_open (hp : p.Unresolved) {id : AliasId}
    (hid : id < p.aliases.size) (hc : c.aliasPath = []) (hn : aliasLevels p ≤ n)
    (hs : Truthful p s0 s) :
    Gives (envAt p o n c) s (aliasType id) (Settled p s0 (p.outline.Stands id)) := by
  refine gives_aliasType hp hs (fun hpath => ?_) fun _ => ?_
  · rw [hc] at hpath
    cases hpath
  · have hnone : Along p.outline.Refers (·) c.aliasPath (· = id) := hc ▸ ⟨.nil, nofun⟩
    have hroom := room_le (p := p) (c.openAlias id)
    have hsize := sizeOf_alias_lt hid
    refine settled_resolveAt hp (bare_openAlias c id) (hnone.opened rfl (·)) (hp.unsized id) ?_ hs
    rw [aliasLevels, Nat.add_mul, Nat.one_mul] at hn
    exact Nat.le_trans (Nat.add_le_add hroom (Nat.le_of_lt hsize)) hn

end Levels

/-! ## All aliases -/

/-- What a type expression resolves to where nothing is bound. -/
def ResolvesTo (p : Package) (o : Options) (t : TypeExpr) (u : Ty) : Prop :=
  ∃ n s, (resolveAt p o n {} t).run {} = some (some u, s)

/-- Asks for aliases, each from a context of its own. -/
def aliasTypes (calls : List (Context × AliasId)) : Check (List (Option Ty)) :=
  Package.forEachCheck (fun (c, id) =>
    inContext ⟨fun _ => c, fun before _ => before, fun _ => rfl⟩ (aliasType id)) calls

section All

variable {p : Package} {o : Options} {s0 s : State} {n : Nat}

theorem settled_resolveAt_start (hp : p.Unresolved) {t : TypeExpr} (ht : t.Unsized)
    (hn : room p 0 {} + sizeOf t ≤ n) :
    ∃ r s', (resolveAt p o n {} t).run {} = some (r, s') ∧
      Settled p {} (p.outline.Denotes (fun _ => none) t) r s' :=
  settled_resolveAt hp ⟨rfl, rfl, rfl⟩ ⟨.nil, nofun⟩ ht hn (Notes.truthful_start rfl rfl)

theorem resolvesTo_iff (hp : p.Unresolved) {t : TypeExpr} (ht : t.Unsized) (u : Ty) :
    ResolvesTo p o t u ↔ p.outline.Denotes (fun _ => none) t u := by
  constructor
  · rintro ⟨n, s, h⟩
    obtain ⟨r, s', hrun', hr⟩ := settled_resolveAt_start hp ht (o := o) (Nat.le_max_right n _)
    have hmore := (below_at (Nat.le_max_left n (room p 0 {} + sizeOf t))).1 {} t h
    rw [hmore] at hrun'
    cases hrun'
    exact (hr.answer u).mp rfl
  · intro hu
    obtain ⟨r, s', hrun', hr⟩ := settled_resolveAt_start hp ht (o := o) (Nat.le_refl _)
    obtain rfl : r = some u := (hr.answer u).mpr hu
    exact ⟨_, s', hrun'⟩

/-- An alias stands for what its expanded target resolves to. -/
theorem stands_iff_expanded (hp : p.Unresolved) {id : AliasId} (u : Ty) :
    p.outline.Stands id u ↔
      ∃ t, p.outline.Expands (p.typeAlias id).decl.target t ∧ ResolvesTo p o t u := by
  constructor
  · intro h
    have hunsized : ∀ id, (p.outline.target id).Unsized := hp.unsized
    obtain ⟨t, hexp, hden⟩ := Outline.Denotes.exists_expansion hunsized h (hunsized id)
    exact ⟨t, hexp, (resolvesTo_iff hp hexp.unsized u).mpr hden⟩
  · rintro ⟨t, hexp, hres⟩
    exact hexp.denotes ((resolvesTo_iff hp hexp.unsized u).mp hres)

/-- What the aliases of a package stand for does not depend on the order in which they
are asked for, nor on the contexts; it is what their expanded targets resolve to. The
aliases on a cycle stand for nothing, and there is an error if there are such; if there
are none, then no cycle is reported. -/
theorem aliases_stand_in_any_order (hp : p.Unresolved) (o : Options) :
    ∃ (answer : AliasId → Option Ty) (levels : Nat),
      (∀ id u, answer id = some u ↔
        ∃ t, p.outline.Expands (p.typeAlias id).decl.target t ∧ ResolvesTo p o t u) ∧
      (∀ id, TransGen p.outline.Refers id id → answer id = none) ∧
      ∀ (calls : List (Context × AliasId)), (∀ call ∈ calls, call.1.aliasPath = []) →
        (∀ id, id ∈ calls.map (·.2) ↔ id < p.aliases.size) →
        ∀ (c : Context) (s : State), s.aliasCache = [] → s.cyclicAliases = [] →
        ∀ n ≥ levels, ∃ s',
          Check.run p o n c (aliasTypes calls) s =
            some (calls.map fun call => answer call.2, s') ∧
          ((∀ a, ¬ TransGen p.outline.Refers a a) →
            ∀ d ∈ s.added s', ∀ name, d.problem ≠ .cycle name) ∧
          ((∃ a, TransGen p.outline.Refers a a) → ∃ d ∈ s.added s', d.isError = true) := by
  have hfound : ∀ id, ∃ r : Option Ty, ∀ u, r = some u ↔ p.outline.Stands id u := fun id => by
    obtain ⟨r, _, _, hr⟩ := settled_resolveAt_start (o := o) hp (hp.unsized id) (Nat.le_refl _)
    exact ⟨r, hr.answer⟩
  obtain ⟨answer, hanswer⟩ := Classical.skolem.mp hfound
  have hcyclic : ∀ id, TransGen p.outline.Refers id id → answer id = none := fun id hid =>
    Option.eq_none_iff_forall_ne_some.mpr fun u hu =>
      Outline.not_stands_of_cycle hid u ((hanswer id u).mp hu)
  refine ⟨answer, aliasLevels p, fun id u => (hanswer id u).trans (stands_iff_expanded hp u),
    hcyclic, ?_⟩
  intro calls hpaths hids c s hcache hnone n hn
  have hknown : ∀ call ∈ calls, call.2 < p.aliases.size := fun call hcall =>
    (hids call.2).mp (List.mem_map_of_mem hcall)
  have hstart : Truthful p s s := Notes.truthful_start hcache hnone
  obtain ⟨rs, s', hrun, hrs, hs', herred⟩ : Gives (envAt p o n c) s (aliasTypes calls) _ :=
    Notes.gives_each (D := fun call => p.outline.Stands call.2) (fun call hcall s hs =>
      (gives_aliasType_of_none_open hp (hknown call hcall) (hpaths call hcall) hn hs).mono
        fun r _ hr => ⟨r, rfl, hr⟩) hstart
  obtain rfl : rs = calls.map fun call => answer call.2 := by
    rw [← List.forall₂_eq_eq_eq, List.forall₂_map_right_iff]
    refine hrs.flip.imp ?_
    rintro _ call ⟨r, rfl, hr⟩
    exact Option.ext fun u => (hr u).trans (hanswer call.2 u).symm
  refine ⟨s', hrun, fun hacyclic d hd name hname => ?_, fun ⟨a, ha⟩ => ?_⟩
  · obtain ⟨a, ha⟩ := hs'.cycles d hd name hname
    exact hacyclic a ha
  · obtain ⟨b, -, hb⟩ := TransGen.tail'_iff.mp ha
    have hmem : a ∈ calls.map (·.2) := (hids a).mpr (lt_of_mentions hp hb)
    obtain ⟨call, hcall, rfl⟩ := List.mem_map.mp hmem
    exact herred ⟨call, hcall, Outline.not_stands_of_cycle ha⟩

end All

theorem unresolved_of_declared {P : Span → Prop} {F : Nat → Prop} {p : Package}
    (hp : p.Declared P F) (hunsized : ∀ a ∈ p.aliases, a.decl.target.Unsized) : p.Unresolved := by
  have hentry : ∀ id, p.typeAlias id ∈ p.aliases ∨ p.typeAlias id = default := fun id => by
    by_cases hid : id < p.aliases.size
    · exact .inl (by simp [Package.typeAlias, hid])
    · exact .inr (by simp [Package.typeAlias, Nat.le_of_not_lt hid])
  refine ⟨fun id => ?_, hp.unbroken, hp.lt_aliases, fun id => ?_⟩
  · rcases hentry id with h | h
    · exact (hp.aliases _ h).1
    · rw [h]
      rfl
  · rcases hentry id with h | h
    · exact hunsized _ h
    · rw [h]
      exact TypeExpr.unsized_of_parts (fun u hu => by cases hu) (fun _ _ _ h => by cases h)

/-- Two aliases that refer to each other, and one that refers to neither. -/
def knotted : Syntax.Program := [
  .typeAlias ⟨⟨"A", default⟩, .pointer (.named ⟨"B", default⟩ [] default) default, default⟩,
  .typeAlias ⟨⟨"B", default⟩, .slice (.named ⟨"A", default⟩ [] default) default, default⟩,
  .typeAlias ⟨⟨"C", default⟩, .named ⟨"int", default⟩ [] default, default⟩]

def knot : Package := (Package.collect [knotted]).package

theorem unresolved_knot : knot.Unresolved := by
  have hname : ∀ name, (TypeExpr.named ⟨name, default⟩ [] default).Unsized := fun name =>
    TypeExpr.unsized_of_parts (fun u hu => nomatch hu) nofun
  have hwithin : ∀ program ∈ [knotted], ∀ i ∈ program, i.Within fun _ => True := by
    intro program hprogram i hi
    rw [List.mem_singleton.mp hprogram] at hi
    simp only [knotted, List.mem_cons, List.not_mem_nil, or_false] at hi
    rcases hi with rfl | rfl | rfl
    · exact .typeAlias ⟨trivial, .pointer trivial (.named trivial trivial nofun)⟩
    · exact .typeAlias ⟨trivial, .slice trivial (.named trivial trivial nofun)⟩
    · exact .typeAlias ⟨trivial, .named trivial trivial nofun⟩
  refine unresolved_of_declared (Package.sound_collect hwithin).table fun a ha => ?_
  have htargets : a.decl.target ∈ knot.aliases.toList.map (·.decl.target) :=
    List.mem_map_of_mem (Array.mem_def.mp ha)
  replace htargets : a.decl.target ∈ [
    .pointer (.named ⟨"B", default⟩ [] default) default,
    .slice (.named ⟨"A", default⟩ [] default) default, .named ⟨"int", default⟩ [] default] := htargets
  simp only [List.mem_cons, List.not_mem_nil, or_false] at htargets
  rcases htargets with h | h | h <;> rw [h]
  · exact TypeExpr.unsized_of_parts (List.forall_mem_singleton.mpr (hname "B")) nofun
  · exact TypeExpr.unsized_of_parts (List.forall_mem_singleton.mpr (hname "A")) nofun
  · exact hname "int"

theorem aliases_stand_in_any_order_knot : ∃ levels, ∀ n ≥ levels, ∃ s,
    Check.run knot {} n {} (aliasTypes [({ templates := ["int"] }, 2), ({}, 1), ({}, 0)]) {} =
      some ([some (.base .int), none, none], s) ∧ ∃ d ∈ State.added {} s, d.isError = true := by
  have hback : knot.outline.Refers 1 0 :=
    ⟨⟨"A", default⟩, [], default, .part List.mem_cons_self .self, rfl⟩
  have hforth : knot.outline.Refers 0 1 :=
    ⟨⟨"B", default⟩, [], default, .part List.mem_cons_self .self, rfl⟩
  obtain ⟨answer, levels, hmeaning, hcyclic, hcalls⟩ := aliases_stand_in_any_order unresolved_knot {}
  have hzero : answer 0 = none := hcyclic 0 (.tail (.single hforth) hback)
  have hone : answer 1 = none := hcyclic 1 (.tail (.single hback) hforth)
  have htwo : answer 2 = some (.base .int) :=
    (hmeaning 2 _).mpr ⟨.named ⟨"int", default⟩ [] default, .named nofun rfl nofun, 1, _, rfl⟩
  have hids : ∀ id : Nat, id ∈ [2, 1, 0] ↔ id < knot.aliases.size := fun id => by
    show id ∈ [2, 1, 0] ↔ id < 3
    simp only [List.mem_cons, List.not_mem_nil, or_false]
    omega
  refine ⟨levels, fun n hn => ?_⟩
  obtain ⟨s, hrun, -, herror⟩ :=
    hcalls [({ templates := ["int"] }, 2), ({}, 1), ({}, 0)] (by simp) hids {} {} rfl rfl n hn
  refine ⟨s, ?_, herror ⟨0, .tail (.single hforth) hback⟩⟩
  rw [hrun]
  simp [hzero, hone, htwo]

end JaneCheck.Check
