import JaneCheck.Proofs.Denotes
import JaneCheck.Proofs.Within

/-!
# Types put together from parts

A type expression that is no name is resolved part by part. Once all parts have types
it takes the same course whatever its form (`resolveStep_compound`): the rules on
pointers and references are checked, the size of an array is found, and the types are
put together. What it denotes is put together from what its parts denote
(`denotes_compound`).
-/

namespace JaneCheck

open Syntax (Expr TypeExpr)

namespace Syntax.TypeExpr

/-- The type expression is no name. -/
def Compound (t : TypeExpr) : Prop := ∀ name gs span, t ≠ .named name gs span

/-- The size that an array is written with. -/
def size? : TypeExpr → Option Expr
  | .array size _ _ => size
  | _ => none

/-- A pointer or reference may lead to the type of its part. -/
def admits (us : List Ty) : TypeExpr → Bool
  | .pointer .. => !((us.headD .void).isReference || (us.headD .void).isRawPointer)
  | .reference .. => (us.headD .void).validForReference
  | _ => true

/-- The type with these types for the parts, and this size if it is an array. -/
def assemble (us : List Ty) (n : Option UInt64) : TypeExpr → Ty
  | .named .. => .void
  | .pointer .. => .pointer (us.headD .void)
  | .reference .. => .reference (us.headD .void)
  | .rawPointer _ => .rawPointer
  | .slice .. => .slice (us.headD .void)
  | .array .. => .array (us.headD .void) n
  | .map .. => .map (us.headD .void) (us.tail.headD .void)
  | .function _ variadic none _ =>
    .function (Check.signature (Check.unnamedParams variadic us) .void false false)
  | .function _ variadic (some _) _ =>
    .function (Check.signature (Check.unnamedParams variadic us.dropLast) (us.getLastD .void)
      false false)
  | .tuple .. => .tuple us

theorem named_or_compound (t : TypeExpr) :
    (∃ name gs span, t = .named name gs span) ∨ t.Compound := by
  cases t with
  | named name gs span => exact .inl ⟨name, gs, span, rfl⟩
  | _ => exact .inr nofun

theorem eq_array_of_size? {t : TypeExpr} {e : Expr} (h : t.size? = some e) :
    ∃ u span, t = .array (some e) u span := by
  cases t with
  | array size u span =>
    cases h
    exact ⟨u, span, rfl⟩
  | _ => cases h

section Within

variable {P : Span → Prop} {t : TypeExpr}

theorem Within.parts (h : t.Within P) : ∀ u ∈ t.parts, u.Within P := by
  cases h <;> simp_all [or_imp]

end Within

end Syntax.TypeExpr

section Closure

variable {P : Ty → Prop} (slice : ∀ {u}, P u → P (.slice u))

include slice

theorem Check.forall_unnamedParams (variadic : Bool) {us : List Ty} (h : ∀ u ∈ us, P u) :
    ∀ q ∈ unnamedParams variadic us, P q.type := by
  fun_induction unnamedParams variadic us with
  | case1 => nofun
  | case2 u =>
    have hu := h u List.mem_cons_self
    cases variadic <;> simp [hu, slice]
  | case3 u us _ ih =>
    obtain ⟨hu, hus⟩ := List.forall_mem_cons.mp h
    exact List.forall_mem_cons.mpr ⟨hu, ih hus⟩

/-- What the rules that make types keep holds of the type that is put together. -/
theorem Syntax.TypeExpr.assemble_forms {t : TypeExpr} {us : List Ty} (h : ∀ u ∈ us, P u)
    (hadmits : t.admits us = true) (n : Option UInt64) (void : P .void)
    (rawPointer : P .rawPointer)
    (pointer : ∀ {u}, P u → u.isReference = false → u.isRawPointer = false → P (.pointer u))
    (reference : ∀ {u}, P u → u.validForReference = true → P (.reference u))
    (array : ∀ {u}, P u → P (.array u n)) (map : ∀ {k v}, P k → P v → P (.map k v))
    (function : ∀ {params ret}, (∀ q ∈ params, P q.type) → P ret →
      P (.function (Check.signature params ret false false)))
    (tuple : P (.tuple us)) : P (t.assemble us n) := by
  have hhead {us : List Ty} (h : ∀ u ∈ us, P u) : P (us.headD .void) := by
    cases us with
    | nil => exact void
    | cons u us => exact h u List.mem_cons_self
  cases t with
  | named => exact void
  | pointer =>
    simp only [admits, Bool.not_eq_true', Bool.or_eq_false_iff] at hadmits
    exact pointer (hhead h) hadmits.1 hadmits.2
  | reference => exact reference (hhead h) hadmits
  | rawPointer => exact rawPointer
  | slice => exact slice (hhead h)
  | array => exact array (hhead h)
  | map => exact map (hhead h) (hhead fun u hu => h u (List.mem_of_mem_tail hu))
  | function ts variadic r span =>
    have hparams {us : List Ty} (h : ∀ u ∈ us, P u) :=
      Check.forall_unnamedParams (P := P) slice variadic h
    cases r with
    | none => exact function (hparams h) void
    | some t =>
      refine function (hparams fun u hu => h u (us.dropLast_subset hu)) ?_
      rcases us.eq_nil_or_concat with rfl | ⟨us, ret, rfl⟩
      · exact void
      · simpa using h ret (by simp)
  | tuple => exact tuple

end Closure

/-! ## Resolution -/

namespace Check

theorem Step.ext {x y : Step α} (h : ∀ s, x.run s = y.run s) : x = y := by
  cases x
  cases y
  simpa using funext h

instance : LawfulMonad Step :=
  .mk' Step
    (fun x => Step.ext fun s => by
      cases h : x.run s <;> simp [Functor.map, Step.bind, Step.pure, h])
    (fun _ _ => rfl)
    (fun x f g => Step.ext fun s => by
      cases h : x.run s <;> simp [Bind.bind, Step.bind, h])

/-- What is done with the types of the parts. -/
def finish (t : TypeExpr) : Option (List Ty) → Check (Option Ty)
  | none => return none
  | some us =>
    if t.admits us then
      match t.size? with
      | none => return some (t.assemble us none)
      | some e => return (← arraySize e).map fun n => t.assemble us (some n)
    else refuse .invalidType t.span

section Laws

variable {env : Env}

theorem reader_pure (a : α) : (pure a : Check α) env = pure a := rfl

theorem reader_bind (x : Check α) (f : α → Check β) : (x >>= f) env = x env >>= fun a => f a env := rfl

theorem resolveAll_concat (ts : List TypeExpr) (t : TypeExpr) :
    resolveAll (ts ++ [t]) env = (do
      let types ← resolveAll ts env
      let last ← resolve t env
      return do return (← types) ++ [← last]) := by
  induction ts with
  | nil =>
    simp only [List.nil_append, resolveAll, reader_bind, reader_pure, pure_bind]
    rfl
  | cons u ts ih =>
    simp only [List.cons_append, resolveAll, reader_bind, reader_pure, ih, bind_assoc, pure_bind]

theorem resolveStep_compound {t : TypeExpr} (h : t.Compound) :
    resolveStep t env = (resolveAll t.parts >>= finish t) env := by
  cases t with
  | named name gs span => exact absurd rfl (h name gs span)
  | rawPointer span => rfl
  | pointer t span =>
    simp only [resolveStep, TypeExpr.parts, resolveAll, reader_bind, reader_pure, bind_assoc, pure_bind]
    refine bind_congr fun o => ?_
    cases o with
    | none => rfl
    | some u =>
      cases h : u.isReference || u.isRawPointer <;>
        simp [finish, TypeExpr.admits, TypeExpr.size?, TypeExpr.assemble, TypeExpr.span, h]
  | reference t span | slice t span =>
    simp only [resolveStep, TypeExpr.parts, resolveAll, reader_bind, reader_pure, bind_assoc, pure_bind]
    refine bind_congr fun o => ?_
    cases o <;> rfl
  | array size t span =>
    simp only [resolveStep, TypeExpr.parts, resolveAll, reader_bind, reader_pure, bind_assoc, pure_bind]
    refine bind_congr fun o => ?_
    cases o <;> cases size <;> rfl
  | map k v span =>
    simp only [resolveStep, TypeExpr.parts, resolveAll, reader_bind, reader_pure, bind_assoc, pure_bind]
    refine bind_congr fun key => bind_congr fun value => ?_
    cases key <;> cases value <;> rfl
  | function ts variadic r span =>
    cases r with
    | none =>
      simp only [resolveStep, TypeExpr.parts, Option.toList, List.append_nil, reader_bind, reader_pure,
        pure_bind]
      refine bind_congr fun types => ?_
      cases types <;> rfl
    | some t =>
      simp only [resolveStep, TypeExpr.parts, Option.toList, reader_bind, reader_pure, resolveAll_concat,
        bind_assoc, pure_bind]
      refine bind_congr fun types => bind_congr fun ret => ?_
      cases types <;> cases ret <;>
        simp [finish, TypeExpr.admits, TypeExpr.size?, TypeExpr.assemble, reader_pure]
  | tuple ts span =>
    simp only [resolveStep, TypeExpr.parts, reader_bind]
    refine bind_congr fun types => ?_
    cases types <;> rfl

end Laws

end Check

/-! ## Meaning -/

namespace Outline

variable {O : Outline} {b : String → Option Ty} {t : TypeExpr} {us : List Ty} {n : Option UInt64}
  {u : Ty}

theorem Denotes.assemble (ht : t.Compound) (hlen : us.length = t.parts.length)
    (hus : ∀ e ∈ t.parts.zip us, O.Denotes b e.1 e.2) (hadmits : t.admits us = true)
    (hn : n.isSome = t.size?.isSome) : O.Denotes b t (t.assemble us n) := by
  have hone {t : TypeExpr} (hlen : us.length = 1) (hus : ∀ e ∈ [t].zip us, O.Denotes b e.1 e.2) :
      O.Denotes b t (us.headD .void) := by
    obtain ⟨u, rfl⟩ := List.length_eq_one_iff.mp hlen
    simpa using hus
  cases t with
  | named name gs span => exact absurd rfl (ht name gs span)
  | rawPointer span => exact .rawPointer
  | pointer t span =>
    simp only [TypeExpr.admits, Bool.not_eq_true', Bool.or_eq_false_iff] at hadmits
    exact .pointer (hone hlen hus) hadmits.1 hadmits.2
  | reference t span => exact .reference (hone hlen hus) hadmits
  | slice t span => exact .slice (hone hlen hus)
  | array size t span => exact .array (hone hlen hus) hn
  | map k v span =>
    obtain ⟨k', us, rfl⟩ := List.exists_cons_of_length_eq_add_one hlen
    obtain ⟨v', rfl⟩ := List.length_eq_one_iff.mp (Nat.succ.inj hlen)
    obtain ⟨hk, hv⟩ : O.Denotes b k k' ∧ O.Denotes b v v' := by simpa using hus
    exact .map hk hv
  | function ts variadic r span =>
    cases r with
    | none => exact .function (by simpa using hlen) (by simpa using hus) (by simp) fun _ => rfl
    | some t =>
      rcases us.eq_nil_or_concat with rfl | ⟨us, ret, rfl⟩
      · simp at hlen
      · rw [List.concat_eq_append] at *
        replace hlen : us.length = ts.length := by simpa using hlen
        simp only [TypeExpr.parts, Option.toList, List.zip_append hlen.symm,
          List.forall_mem_append] at hus
        simp only [TypeExpr.assemble, List.dropLast_concat, List.getLastD_concat]
        exact .function hlen hus.1 (by simpa using hus.2) (by simp)
  | tuple ts span => exact .tuple hlen hus

/-- Induction on what is denoted, where all compound forms are one case. -/
theorem Denotes.inductionOnParts {motive : ∀ b t u, O.Denotes b t u → Prop}
    (known : ∀ {b name span u} h, motive b (.named name [] span) u (.known h))
    (typeAlias : ∀ {b name span id u} h ht, motive (fun _ => none) (O.target id) u ht →
      motive b (.named name [] span) u (.typeAlias h ht))
    (enum : ∀ {b name span id} h, motive b (.named name [] span) (.enum id _) (.enum h))
    (trait : ∀ {b name span id} h, motive b (.named name [] span) (.trait id _) (.trait h))
    (struct : ∀ {b name gs span id us} h hgs hlen hus henum,
      (∀ e he, motive b e.1 e.2 (hus e he)) →
      motive b (.named name gs span) (.struct id _ us) (.struct h hgs hlen hus henum))
    (compound : ∀ {b t us n} ht hlen hus hadmits hn, (∀ e he, motive b e.1 e.2 (hus e he)) →
      motive b t (t.assemble us n) (.assemble ht hlen hus hadmits hn)) (h : O.Denotes b t u) :
    motive b t u h := by
  -- the rule for compounds, with the type put together
  have built {b t v l n} (ht : t.Compound) (hlen : l.length = t.parts.length)
      (hus : ∀ e ∈ t.parts.zip l, ∃ h, motive b e.1 e.2 h) (hadmits : t.admits l = true)
      (hn : n.isSome = t.size?.isSome) (hv : t.assemble l n = v) : ∃ h, motive b t v h := by
    subst hv
    exact ⟨_, compound ht hlen (fun e he => (hus e he).1) hadmits hn fun e he => (hus e he).2⟩
  refine (?_ : ∃ h, motive b t u h).2
  induction h with
  | known h => exact ⟨_, known h⟩
  | typeAlias h ht ih => exact ⟨_, typeAlias h ht ih.2⟩
  | enum h => exact ⟨_, enum h⟩
  | trait h => exact ⟨_, trait h⟩
  | struct h hgs hlen hus henum ih => exact ⟨_, struct h hgs hlen hus henum fun e he => (ih e he).2⟩
  | @pointer b t span u h hr hp ih =>
    exact built (l := [u]) (n := none) nofun rfl (by simpa using ih)
      (by simp [TypeExpr.admits, hr, hp]) rfl rfl
  | @reference b t span u h hv ih =>
    exact built (l := [u]) (n := none) nofun rfl (by simpa using ih) hv rfl rfl
  | @rawPointer b span => exact built (l := []) (n := none) nofun rfl nofun rfl rfl rfl
  | @slice b t span u h ih =>
    exact built (l := [u]) (n := none) nofun rfl (by simpa using ih) rfl rfl rfl
  | @array b size t span u n h hn ih =>
    exact built (l := [u]) nofun rfl (by simpa using ih) rfl hn rfl
  | @map b k v span k' v' hk hv ihk ihv =>
    exact built (l := [k', v']) (n := none) nofun rfl (by simpa using ⟨ihk, ihv⟩) rfl rfl rfl
  | @function b ts variadic r span us ret hlen hus hret hvoid ih ihret =>
    cases r with
    | none =>
      cases hvoid rfl
      exact built (l := us) (n := none) nofun (by simpa using hlen) (by simpa using ih) rfl rfl rfl
    | some t =>
      refine built (l := us ++ [ret]) (n := none) nofun (by simpa using hlen) ?_ rfl rfl
        (by simp [TypeExpr.assemble])
      simp only [TypeExpr.parts, Option.toList, List.zip_append hlen.symm, List.forall_mem_append]
      exact ⟨ih, by simpa using ihret t rfl⟩
  | tuple hlen hus ih => exact built (n := none) nofun hlen ih rfl rfl rfl

/-- What is denoted is put together from what the parts denote. -/
theorem denotes_compound (ht : t.Compound) : O.Denotes b t u ↔
    ∃ us n, (us.length = t.parts.length ∧ ∀ e ∈ t.parts.zip us, O.Denotes b e.1 e.2) ∧
      t.admits us = true ∧ n.isSome = t.size?.isSome ∧ t.assemble us n = u := by
  constructor
  · intro h
    induction h using Denotes.inductionOnParts with
    | compound _ hlen hus hadmits hn _ => exact ⟨_, _, ⟨hlen, hus⟩, hadmits, hn, rfl⟩
    | _ => exact absurd rfl (ht _ _ _)
  · rintro ⟨us, n, ⟨hlen, hus⟩, hadmits, hn, rfl⟩
    exact .assemble ht hlen hus hadmits hn

end Outline

end JaneCheck
