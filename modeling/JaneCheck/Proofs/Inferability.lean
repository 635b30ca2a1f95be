import JaneCheck.Check.Eval
import JaneCheck.Proofs.Inference

/-!
# Types that inference sees through

Inference on a parameter and an argument that fits it exactly: the argument's type is
that of the parameter with a type in the place of each type parameter (`Ty.fill`). What
is found are these types, without a conflict (`keeps_infer`). Whether inference
succeeds is a matter of the parameter's type: it does unless some part `Hides` a type
parameter. A tuple does, and so does a slice, an array or a map behind a pointer or a
reference, while all of them count as mentioning it.
-/

namespace JaneCheck

/-! ## Types for type parameters -/

variable {t : Ty} {name : String}

namespace Ty

mutual

/-- The type with a type in the place of each type parameter. -/
def fill (σ : String → Ty) : Ty → Ty
  -- the category alone is the type parameter that has its name
  | .base c => if c = .generic then σ c.name else .base c
  | .generic name => σ name
  | .pointer t => .pointer (t.fill σ)
  | .reference t => .reference (t.fill σ)
  | .slice t => .slice (t.fill σ)
  | .array t size => .array (t.fill σ) size
  | .map k v => .map (k.fill σ) (v.fill σ)
  | .tuple ts => .tuple (fillAll σ ts)
  | .function ⟨params, ret, isMethod, isGeneric, isUnsafe⟩ =>
    .function ⟨fillParams σ params, ret.fill σ, isMethod, isGeneric, isUnsafe⟩
  | .struct id name gs => .struct id name (fillAll σ gs)
  | .trait id name => .trait id name
  | .enum id name => .enum id name

def fillAll (σ : String → Ty) : List Ty → List Ty
  | [] => []
  | t :: ts => t.fill σ :: fillAll σ ts

def fillParams (σ : String → Ty) : List (Param Ty) → List (Param Ty)
  | [] => []
  | ⟨name, t, mutable, variadic, hasDefault⟩ :: ps =>
    ⟨name, t.fill σ, mutable, variadic, hasDefault⟩ :: fillParams σ ps

end

variable {σ : String → Ty}

theorem fillAll_eq (ts : List Ty) : fillAll σ ts = ts.map (fill σ) := by
  induction ts with
  | nil => rfl
  | cons t ts ih => rw [fillAll, ih, List.map_cons]

theorem fillParams_types (ps : List (Param Ty)) :
    (fillParams σ ps).map (·.type) = (ps.map (·.type)).map (fill σ) := by
  induction ps with
  | nil => rfl
  | cons p ps ih => rw [fillParams, List.map_cons, ih, List.map_cons, List.map_cons]

theorem fillParams_length (ps : List (Param Ty)) : (fillParams σ ps).length = ps.length := by
  have h := congrArg List.length (fillParams_types (σ := σ) ps)
  simpa using h

theorem fill_eq_wrap (t : Ty) : t.fill σ = wrap t.leadingModifiers (t.core.fill σ) := by
  cases t with
  | pointer t => rw [fill, fill_eq_wrap t]; rfl
  | reference t => rw [fill, fill_eq_wrap t]; rfl
  | _ => rfl

theorem fill_core_of_category {t : Ty} (h : t.category = .generic) :
    t.core.fill σ = σ t.core.kind := by
  cases t with
  | pointer t => exact fill_core_of_category (t := t) h
  | reference t => exact fill_core_of_category (t := t) h
  | base c =>
    cases (h : c = .generic)
    rfl
  | generic name => rfl
  | _ => cases h

theorem fill_of_category (h : t.category = .generic) :
    t.fill σ = wrap t.leadingModifiers (σ t.core.kind) := by
  rw [fill_eq_wrap, fill_core_of_category h]

theorem isRawPointer_fill (h : t.category ≠ .generic) :
    (t.fill σ).isRawPointer = t.isRawPointer := by
  cases t with
  | pointer t =>
    cases t with
    | base c =>
      have hc : c ≠ .generic := h
      rw [fill, fill, if_neg hc]
    | generic => exact absurd rfl h
    | _ => rfl
  | base c =>
    have hc : c ≠ .generic := h
    rw [fill, if_neg hc]
  | generic => exact absurd rfl h
  | _ => rfl

theorem modifiers_fill (h : t.category ≠ .generic) : (t.fill σ).modifiers = t.modifiers := by
  have hcore : (t.core.fill σ).leadingModifiers = [] := by
    rw [← category_core] at h
    cases hcore : t.core with
    | pointer u | reference u => simp at hcore
    | base c =>
      rw [hcore] at h
      have hc : c ≠ .generic := h
      rw [fill, if_neg hc]
      rfl
    | generic n =>
      rw [hcore] at h
      exact absurd rfl h
    | _ => rfl
  unfold modifiers
  rw [isRawPointer_fill h, fill_eq_wrap, leadingModifiers_wrap, hcore, List.append_nil]

theorem core_fill (t : Ty) : (t.fill σ).core = (t.core.fill σ).core := by
  rw [fill_eq_wrap, core_wrap]

end Ty

namespace Generic

/-! ## Shape by shape -/

variable {sig : FnSig} {id : StructId} {gs : List Ty}

section Equations

variable {P A : Ty} {out : Inferred}

theorem infer_plain (h : P.hasGeneric = false) : infer P A out = (true, out) := by
  rw [infer, inferCore_core]
  cases hcore : P.core with
  | pointer t | reference t => simp at hcore
  | _ =>
    unfold inferCore
    simp [h]

theorem infer_generic (h : P.category = .generic) (hvoid : A.isVoid = false)
    (hnil : A.isNil = false) : infer P A out = record P A P.core.kind out := by
  have hgeneric := Ty.hasGeneric_of_category h
  rw [← P.category_core] at h
  rw [infer, inferCore_core]
  cases hcore : P.core with
  | pointer t | reference t => simp at hcore
  | base c | generic c =>
    unfold inferCore
    simp [hgeneric, hvoid, hnil, Ty.kind]
  | _ =>
    rw [hcore] at h
    cases h

theorem record_fst (P A : Ty) (name : String) (out : Inferred) :
    (record P A name out).1 = P.modifiers.isPrefixOf A.modifiers := by
  unfold record
  dsimp only
  split
  next h => exact h.symm
  next h => exact (Bool.not_eq_true _ ▸ h).symm

theorem infer_void (h : P.hasGeneric = true) (hA : A.isVoid = true ∨ A.isNil = true) :
    infer P A out = (false, out) := by
  rw [infer, inferCore_core]
  cases hcore : P.core with
  | pointer t | reference t => simp at hcore
  | _ =>
    unfold inferCore
    simp [h, hA]

theorem infer_slice {a : Ty} (h : (Ty.slice t).hasGeneric = true) :
    infer (.slice t) (.slice a) out = infer t a out := by
  rw [infer, inferCore]
  simp [infer, h, Ty.isVoid, Ty.isNil, Ty.category, Ty.modifiers, Ty.isRawPointer,
    Ty.leadingModifiers]

theorem infer_array {a : Ty} {n m : Option UInt64} (h : (Ty.array t n).hasGeneric = true) :
    infer (.array t n) (.array a m) out = infer t a out := by
  rw [infer, inferCore]
  simp [infer, h, Ty.isVoid, Ty.isNil, Ty.category, Ty.modifiers, Ty.isRawPointer,
    Ty.leadingModifiers]

theorem infer_map {k v ka va : Ty} (h : (Ty.map k v).hasGeneric = true) :
    infer (.map k v) (.map ka va) out =
      ((infer k ka out).1 && (infer v va (infer k ka out).2).1,
        (infer v va (infer k ka out).2).2) := by
  rw [infer, inferCore]
  simp [infer, h, Ty.isVoid, Ty.isNil, Ty.category, Ty.modifiers, Ty.isRawPointer,
    Ty.leadingModifiers]

theorem infer_function {given : FnSig} (h : P.hasGeneric = true) (hP : P.core = .function sig)
    (hA : A.core = .function given) (hmodifiers : P.modifiers = A.modifiers)
    (hlen : sig.params.length = given.params.length) : infer P A out =
      ((infer sig.ret given.ret (inferParams sig.params given.params out).2).1 &&
        (inferParams sig.params given.params out).1,
      (infer sig.ret given.ret (inferParams sig.params given.params out).2).2) := by
  have hcategory : A.category = .fn := by rw [← A.category_core, hA]; rfl
  have hsig : A.signature? = some given := by rw [Ty.signature?, hA]
  rw [infer, inferCore_core, hP, inferCore]
  simp [infer, h, hmodifiers, hsig, hlen, Ty.isVoid, Ty.isNil, hcategory]

theorem infer_struct {name' : String} {as : List Ty} (h : P.hasGeneric = true)
    (hP : P.core = .struct id name gs) (hA : A.core = .struct id name' as)
    (hmodifiers : P.modifiers = A.modifiers) (hlen : gs.length = as.length) :
    infer P A out = inferAll gs as out := by
  have hcategory : A.category = .struct := by rw [← A.category_core, hA]; rfl
  have hstruct : A.struct? = some (id, as) := by rw [Ty.struct?, hA]
  rw [infer, inferCore_core, hP, inferCore]
  simp [h, hmodifiers, hstruct, hlen, Ty.isVoid, Ty.isNil, hcategory]

/-- A tuple refuses, and so does a slice, an array or a map behind a modifier. -/
theorem infer_refuses (h : P.hasGeneric = true)
    (hP : P.category = .tuple ∨ P.category ∈ [.slice, .array, .map] ∧ P.leadingModifiers ≠ []) :
    (infer P A out).1 = false := by
  have hwalk := walk_infer P A out
  generalize infer P A out = r at hwalk ⊢
  cases hwalk with
  | plain hplain =>
    rw [h] at hplain
    cases hplain
  | refused => rfl
  | recorded hcategory => simp [hcategory] at hP
  | slice hslice => simp [hslice, Ty.category, Ty.leadingModifiers] at hP
  | array harray => simp [harray, Ty.category, Ty.leadingModifiers] at hP
  | map hmap => simp [hmap, Ty.category, Ty.leadingModifiers] at hP
  | function hfunction => simp [← P.category_core, hfunction, Ty.category] at hP
  | struct hstruct => simp [← P.category_core, hstruct, Ty.category] at hP

end Equations

/-! ## What inference does not see through -/

/-- Inference does not see through the type `q`, which stands somewhere in the type of a
parameter, or not to what stands for a type parameter. -/
inductive Hides (σ : String → Ty) (q : Ty) : Prop
  | tuple (h : q.hasGeneric = true) (hcategory : q.category = .tuple)
  | behind (h : q.hasGeneric = true) (hcategory : q.category ∈ [.slice, .array, .map])
      (hmodifiers : q.leadingModifiers ≠ [])
  | nothing (h : q.category = .generic)
      (hσ : (σ q.core.kind).isVoid = true ∨ (σ q.core.kind).isNil = true)
  | memory (h : q.category = .generic) (hmodifiers : q.leadingModifiers = [.pointer])
      (hσ : σ q.core.kind = .base .raw)

/-- Inference sees through a type to all its type parameters. -/
def Clear (σ : String → Ty) (P : Ty) : Prop := ∀ path q, P.at? path = some q → ¬Hides σ q

section Clearness

variable {σ : String → Ty} {P : Ty} {out : Inferred}

theorem Hides.hasGeneric {q : Ty} (h : Hides σ q) : q.hasGeneric = true := by
  cases h with
  | tuple h | behind h => exact h
  | nothing h | memory h => exact Ty.hasGeneric_of_category h

theorem clear_of_plain (h : P.hasGeneric = false) : Clear σ P := by
  intro path q hq hhides
  rw [Ty.hasGeneric_of_at? hq hhides.hasGeneric] at h
  cases h

theorem clear_iff : Clear σ P ↔ ¬Hides σ P ∧ ∀ p u, P.part? p = some u → Clear σ u := by
  constructor
  · intro h
    exact ⟨h [] P rfl, fun p u hu path q hq => h (p :: path) q (Ty.at?_cons.mpr ⟨u, hu, hq⟩)⟩
  · rintro ⟨hself, hparts⟩ path q hq
    cases path with
    | nil =>
      cases hq
      exact hself
    | cons p path =>
      obtain ⟨u, hu, hpath⟩ := Ty.at?_cons.mp hq
      exact hparts p u hu path q hpath

/-- A type parameter is recorded unless what stands for it has no type, or makes
the pointer in front of it a pointer to memory of no type. -/
theorem infer_fill_generic (h : P.category = .generic) :
    (infer P (P.fill σ) out).1 = true ↔ ¬Hides σ P := by
  have hgeneric := Ty.hasGeneric_of_category h
  have hmodifiers : P.modifiers = P.leadingModifiers := by
    refine Ty.modifiers_of_category ?_
    rw [h]
    nofun
  rw [Ty.fill_of_category h]
  by_cases hσ : (σ P.core.kind).isVoid = true ∨ (σ P.core.kind).isNil = true
  · rw [infer_void hgeneric (by simpa [Ty.isVoid, Ty.isNil, Ty.category_wrap] using hσ)]
    exact iff_of_false nofun fun hclear => hclear (.nothing h hσ)
  · have htype := not_or.mp hσ
    rw [infer_generic h (by simpa [Ty.isVoid, Ty.category_wrap] using htype.1)
      (by simpa [Ty.isNil, Ty.category_wrap] using htype.2), record_fst, hmodifiers,
      Ty.isPrefixOf_modifiers_wrap]
    refine not_congr ⟨fun hraw => .memory h hraw.1 hraw.2, fun hhides => ?_⟩
    cases hhides with
    | tuple _ hcategory => simp [h] at hcategory
    | behind _ hcategory => simp [h] at hcategory
    | nothing _ hnothing => exact absurd hnothing hσ
    | memory _ hpointer hraw => exact ⟨hpointer, hraw⟩

/-- What is no type parameter and no tuple hides nothing, except behind a modifier. -/
theorem not_hides (hgeneric : P.category ≠ .generic) (htuple : P.category ≠ .tuple)
    (hmodifiers : P.category ∈ [.slice, .array, .map] → P.leadingModifiers = []) :
    ¬Hides σ P := by
  intro h
  cases h with
  | tuple _ hcategory => exact htuple hcategory
  | behind _ hcategory hbehind => exact hbehind (hmodifiers hcategory)
  | nothing h | memory h => exact hgeneric h

/-- A walk beside each other of types and what they are filled to agrees if each does. -/
theorem inferAll_fill_iff {ts : List Ty}
    (h : ∀ t ∈ ts, ∀ out, (infer t (t.fill σ) out).1 = true ↔ Clear σ t) (out : Inferred) :
    (inferAll ts (ts.map (Ty.fill σ)) out).1 = true ↔ ∀ t ∈ ts, Clear σ t := by
  induction ts generalizing out with
  | nil => simp [inferAll]
  | cons t ts ih =>
    rw [List.map_cons, inferAll_cons, Bool.and_eq_true, h t (by simp),
      ih fun u hu => h u (by simp [hu]), List.forall_mem_cons]

theorem infer_fill_hidden (h : P.hasGeneric = true)
    (hP : P.category = .tuple ∨ P.category ∈ [.slice, .array, .map] ∧ P.leadingModifiers ≠ []) :
    (infer P (P.fill σ) out).1 = true ↔ Clear σ P := by
  rw [infer_refuses h hP]
  refine iff_of_false nofun fun hclear => hclear [] P rfl ?_
  rcases hP with htuple | ⟨hcategory, hmodifiers⟩
  · exact .tuple h htuple
  · exact .behind h hcategory hmodifiers

theorem clear_slice : Clear σ (.slice t) ↔ Clear σ t := by
  rw [clear_iff, and_iff_right (not_hides (by simp [Ty.category]) (by simp [Ty.category])
    fun _ => rfl)]
  refine ⟨fun h => h .element t rfl, ?_⟩
  rintro h (_ | _) u ⟨⟩
  exact h

theorem clear_array {n : Option UInt64} : Clear σ (.array t n) ↔ Clear σ t := by
  rw [clear_iff, and_iff_right (not_hides (by simp [Ty.category]) (by simp [Ty.category])
    fun _ => rfl)]
  refine ⟨fun h => h .element t rfl, ?_⟩
  rintro h (_ | _) u ⟨⟩
  exact h

theorem clear_map {k v : Ty} : Clear σ (.map k v) ↔ Clear σ k ∧ Clear σ v := by
  rw [clear_iff, and_iff_right (not_hides (by simp [Ty.category]) (by simp [Ty.category])
    fun _ => rfl)]
  refine ⟨fun h => ⟨h .key k rfl, h .value v rfl⟩, ?_⟩
  rintro ⟨hk, hv⟩ (_ | _) u ⟨⟩
  · exact hk
  · exact hv

theorem clear_function (hP : P.core = .function sig) :
    Clear σ P ↔ (∀ t ∈ sig.params.map (·.type), Clear σ t) ∧ Clear σ sig.ret := by
  have hcategory : P.category = .fn := by rw [← P.category_core, hP]; rfl
  rw [clear_iff, and_iff_right (not_hides (by simp [hcategory]) (by simp [hcategory])
    (by simp [hcategory]))]
  simp only [Ty.part?, hP]
  constructor
  · intro h
    refine ⟨fun t ht => ?_, h .result sig.ret rfl⟩
    obtain ⟨n, hn⟩ := List.mem_iff_getElem?.mp ht
    rw [List.getElem?_map] at hn
    exact h (.param n) t hn
  · rintro ⟨hparams, hret⟩ p u hu
    cases p with
    | param n =>
      refine hparams u (List.mem_iff_getElem?.mpr ⟨n, ?_⟩)
      rw [List.getElem?_map]
      exact hu
    | result =>
      cases hu
      exact hret
    | _ => cases hu

theorem clear_struct (hP : P.core = .struct id name gs) : Clear σ P ↔ ∀ g ∈ gs, Clear σ g := by
  have hcategory : P.category = .struct := by rw [← P.category_core, hP]; rfl
  rw [clear_iff, and_iff_right (not_hides (by simp [hcategory]) (by simp [hcategory])
    (by simp [hcategory]))]
  simp only [Ty.part?, hP]
  constructor
  · intro h g hg
    obtain ⟨n, hn⟩ := List.mem_iff_getElem?.mp hg
    exact h (.argument n) g hn
  · intro h p u hu
    cases p with
    | argument n => exact h u (List.mem_of_getElem? hu)
    | _ => cases hu

theorem infer_fill_function (h : P.hasGeneric = true) (hP : P.core = .function sig)
    (hparams : ∀ t ∈ sig.params.map (·.type), ∀ out, (infer t (t.fill σ) out).1 = true ↔ Clear σ t)
    (hret : ∀ out, (infer sig.ret (sig.ret.fill σ) out).1 = true ↔ Clear σ sig.ret) :
    (infer P (P.fill σ) out).1 = true ↔ Clear σ P := by
  have hcategory : P.category = .fn := by rw [← P.category_core, hP]; rfl
  have hmodifiers := P.modifiers_fill (σ := σ) (by simp [hcategory])
  have hfill := P.core_fill (σ := σ)
  rw [hP] at hfill
  rw [infer_function h hP hfill hmodifiers.symm (Ty.fillParams_length _).symm, inferParams_eq,
    Ty.fillParams_types, Bool.and_eq_true, hret, inferAll_fill_iff hparams, clear_function hP,
    and_comm]

theorem infer_fill_struct (h : P.hasGeneric = true) (hP : P.core = .struct id name gs)
    (hgs : ∀ t ∈ gs, ∀ out, (infer t (t.fill σ) out).1 = true ↔ Clear σ t) :
    (infer P (P.fill σ) out).1 = true ↔ Clear σ P := by
  have hcategory : P.category = .struct := by rw [← P.category_core, hP]; rfl
  have hmodifiers := P.modifiers_fill (σ := σ) (by simp [hcategory])
  have hfill := P.core_fill (σ := σ)
  rw [hP, Ty.fill, Ty.fillAll_eq] at hfill
  rw [infer_struct h hP hfill hmodifiers.symm (by simp), inferAll_fill_iff hgs, clear_struct hP]

/-- Whether inference succeeds on a type that fits the parameter exactly does not depend
on what was found before. -/
theorem infer_fill_iff (P : Ty) (out : Inferred) :
    (infer P (P.fill σ) out).1 = true ↔ Clear σ P := by
  induction P using Ty.inductionOnParts generalizing out with
  | step P ih =>
    cases hgeneric : P.hasGeneric with
    | false =>
      rw [infer_plain hgeneric]
      exact iff_of_true rfl (clear_of_plain hgeneric)
    | true =>
    by_cases hparameter : P.category = .generic
    · rw [infer_fill_generic hparameter, clear_iff, and_iff_left]
      intro p u hu
      rw [part?_of_category hparameter] at hu
      cases hu
    by_cases hmodifiers : P.category ∈ [.slice, .array, .map] ∧ P.leadingModifiers ≠ []
    · exact infer_fill_hidden hgeneric (.inr hmodifiers)
    -- a slice, an array or a map is its own core from here on
    have hplain : P.category ∈ [.slice, .array, .map] → P = P.core := by
      intro h
      by_contra hne
      exact hmodifiers ⟨h, fun hnil => hne (Ty.core_of_leadingModifiers hnil).symm⟩
    have hcategory := P.category_core
    have hown : P.core.hasGeneric = true := P.hasGeneric_core.trans hgeneric
    cases hcore : P.core with
    | pointer t | reference t => simp at hcore
    | base c =>
      rw [hcore] at hcategory hown
      exact absurd (hcategory.symm.trans (eq_of_beq hown)) hparameter
    | generic name =>
      rw [hcore] at hcategory
      exact absurd hcategory.symm hparameter
    | trait | enum =>
      rw [hcore] at hown
      cases hown
    | tuple ts =>
      rw [hcore] at hcategory
      exact infer_fill_hidden hgeneric (.inl hcategory.symm)
    | slice t =>
      rw [hcore] at hcategory hplain hown
      obtain rfl := hplain (by simp [← hcategory, Ty.category])
      rw [Ty.fill, infer_slice hown, ih .element t rfl, clear_slice]
    | array t n =>
      rw [hcore] at hcategory hplain hown
      obtain rfl := hplain (by simp [← hcategory, Ty.category])
      rw [Ty.fill, infer_array hown, ih .element t rfl, clear_array]
    | map k v =>
      rw [hcore] at hcategory hplain hown
      obtain rfl := hplain (by simp [← hcategory, Ty.category])
      rw [Ty.fill, infer_map hown, Bool.and_eq_true, ih .key k rfl, ih .value v rfl, clear_map]
    | function sig =>
      refine infer_fill_function hgeneric hcore (fun t ht => ?_)
        (ih .result sig.ret (by rw [Ty.part?, hcore]; rfl))
      obtain ⟨p, hp⟩ := Ty.part?_of_mem_params hcore ht
      exact ih p t hp
    | struct id name gs =>
      refine infer_fill_struct hgeneric hcore fun t ht => ?_
      obtain ⟨p, hp⟩ := Ty.part?_of_mem_arguments hcore ht
      exact ih p t hp

end Clearness

end Generic

/-! ## What is found -/

namespace Inferred

variable {σ : String → Ty} {i j l : Inferred}

/-- Each type that was found is the one that stands for the name. -/
def Agrees (σ : String → Ty) (i : Inferred) : Prop := ∀ name t, i.get? name = some t → t = σ name

/-- What is found in addition agrees too, without a conflict. -/
def Keeps (σ : String → Ty) (i j : Inferred) : Prop :=
  i.Agrees σ → j.Agrees σ ∧ j.conflicts = i.conflicts

theorem Keeps.refl (i : Inferred) : Keeps σ i i := fun h => ⟨h, rfl⟩

theorem Keeps.trans (h : Keeps σ i j) (h' : Keeps σ j l) : Keeps σ i l := by
  intro hi
  obtain ⟨hj, hconflicts⟩ := h hi
  obtain ⟨hl, hconflicts'⟩ := h' hj
  exact ⟨hl, hconflicts'.trans hconflicts⟩

theorem keeps_record (i : Inferred) (name : String) : Keeps σ i (i.record name (σ name)) := by
  intro h
  unfold record
  split
  next hnone =>
    refine ⟨fun name' t ht => ?_, rfl⟩
    unfold get? at ht hnone
    rw [List.find?_append] at ht
    cases hold : i.bindings.find? (·.1 == name') with
    | some b =>
      rw [hold] at ht
      exact h name' t (by rw [get?, hold]; exact ht)
    | none =>
      rw [hold, Option.none_or, List.find?_singleton] at ht
      split at ht
      next heq =>
        cases ht
        exact congrArg σ (eq_of_beq heq)
      next => cases ht
  next kept hkept =>
    have hsame : (kept == σ name) = true := by
      rw [h name kept hkept]
      exact Ty.same_of_bare_eq rfl
    rw [if_pos hsame]
    exact ⟨h, rfl⟩

end Inferred

namespace Generic

section Found

variable {σ : String → Ty} {P : Ty} {out : Inferred}

theorem strip_wrap (ms : List Modifier) (t : Ty) : strip ms.length (Ty.wrap ms t) = t := by
  induction ms with
  | nil => rfl
  | cons m ms ih => cases m <;> exact ih

theorem keeps_inferAll {ts : List Ty}
    (h : ∀ t ∈ ts, ∀ out, Inferred.Keeps σ out (infer t (t.fill σ) out).2) (out : Inferred) :
    Inferred.Keeps σ out (inferAll ts (ts.map (Ty.fill σ)) out).2 := by
  induction ts generalizing out with
  | nil =>
    simp only [inferAll]
    exact .refl out
  | cons t ts ih =>
    rw [List.map_cons, inferAll_cons]
    exact (h t (by simp) out).trans (ih (fun u hu => h u (by simp [hu])) _)

/-- On a type that fits the parameter exactly, all that is found is what stands for the
type parameters, even where inference fails. -/
theorem keeps_infer (P : Ty) (out : Inferred) :
    Inferred.Keeps σ out (infer P (P.fill σ) out).2 := by
  induction P using Ty.inductionOnParts generalizing out with
  | step P ih =>
    have hwalk := walk_infer P (P.fill σ) out
    have hfill := P.core_fill (σ := σ)
    generalize hA : P.fill σ = A at hwalk hfill
    generalize infer P A out = r at hwalk
    cases hwalk with
    | plain | refused => exact .refl out
    | recorded h =>
      have hmodifiers : P.modifiers = P.leadingModifiers := by
        refine Ty.modifiers_of_category ?_
        rw [h]
        nofun
      rw [hmodifiers, ← hA, Ty.fill_of_category h, strip_wrap]
      exact out.keeps_record _
    | slice hP hslice =>
      subst hP hslice
      cases hA
      exact ih .element _ rfl out
    | array hP harray =>
      subst hP harray
      cases hA
      exact ih .element _ rfl out
    | map hP hmap =>
      subst hP hmap
      cases hA
      exact (ih .key _ rfl out).trans (ih .value _ rfl _)
    | @function sig given hP hfunction hlen =>
      rw [hfunction, hP] at hfill
      cases hfill
      rw [inferParams_eq, Ty.fillParams_types]
      refine (keeps_inferAll (fun t ht => ?_) out).trans
        (ih .result sig.ret (by rw [Ty.part?, hP]; rfl) _)
      obtain ⟨p, hp⟩ := Ty.part?_of_mem_params hP ht
      exact ih p t hp
    | @struct id name name' gs as hP hstruct hlen =>
      rw [hstruct, hP, Ty.fill, Ty.fillAll_eq] at hfill
      cases hfill
      refine keeps_inferAll (fun t ht => ?_) out
      obtain ⟨p, hp⟩ := Ty.part?_of_mem_arguments hP ht
      exact ih p t hp

end Found

theorem mapM_eq_some {f : String → Option Ty} {g : String → Ty} {names : List String}
    (h : ∀ name ∈ names, f name = some (g name)) : names.mapM f = some (names.map g) := by
  induction names with
  | nil => rfl
  | cons name names ih =>
    rw [List.mapM_cons, h name (by simp), ih fun n hn => h n (by simp [hn])]
    rfl

/-- A name that one of the types mentions is bound if inference succeeds on all of them. -/
theorem get?_of_mentions {params args : List Ty} {r : Bool × Inferred} {out : Inferred}
    (hsound : SoundAll params args out r) (hok : r.1 = true) (hlen : params.length = args.length)
    (h : anyMentions name params = true) : ∃ t, r.2.get? name = some t := by
  rw [anyMentions_eq, List.any_eq_true] at h
  obtain ⟨P, hP, hmentions⟩ := h
  obtain ⟨n, hn⟩ := List.mem_iff_getElem?.mp hP
  obtain ⟨path, q, hq, hgeneric, rfl⟩ := at?_of_mentions P hmentions
  obtain ⟨A, -, hexplains⟩ := hsound.partner hok hlen hn
  obtain ⟨-, t, -, ht, -⟩ := hexplains path q hq hgeneric
  exact ⟨t, ht⟩

/-- Let the parameters mention all the names, and let each argument fit its parameter
exactly. Then inference succeeds on all of them and finds the types that stand for the
names, unless some part of a parameter's type hides what stands in it. -/
theorem inferable_inferred_iff {names : List String} {params : List Ty} (σ : String → Ty)
    (h : isInferable names params = true) :
    ((inferAll params (params.map (Ty.fill σ)) {}).1 = true ∧
      (inferAll params (params.map (Ty.fill σ)) {}).2.ordered? names = some (names.map σ) ∧
      (inferAll params (params.map (Ty.fill σ)) {}).2.conflicts = []) ↔
    ∀ P ∈ params, ∀ path q, P.at? path = some q → ¬Hides σ q := by
  have hclear := inferAll_fill_iff (σ := σ) (fun P (_ : P ∈ params) => infer_fill_iff P) {}
  refine ⟨fun hall => hclear.mp hall.1, fun hall => ?_⟩
  have hok := hclear.mpr hall
  have hsound := soundAll_inferAll (fun P (_ : P ∈ params) => sound_infer P)
    (params.map (Ty.fill σ)) {}
  obtain ⟨hagrees, hconflicts⟩ :=
    keeps_inferAll (σ := σ) (fun P (_ : P ∈ params) => keeps_infer P) {} (by rintro _ _ ⟨⟩)
  refine ⟨hok, mapM_eq_some fun name hname => ?_, hconflicts⟩
  obtain ⟨t, ht⟩ := get?_of_mentions hsound hok (by simp) (List.all_eq_true.mp h name hname)
  rw [ht, hagrees name t ht]

/-- `[K:[]*V]`, `*fn(&V) -> K`, `[4]Pair[K,V]` -/
def tableParams : List Ty :=
  [tableParam,
    .pointer (.function ⟨[⟨"", .reference (.generic "V"), false, false, false⟩], .generic "K",
      false, false, false⟩),
    .array (.struct 0 "Pair" [.generic "K", .generic "V"]) (some 4)]

/-- Text for `K`, a pointer to memory of no type for `V`. -/
def tableTypes (name : String) : Ty := if name = "K" then .base .str else .rawPointer

theorem inferable_inferred_iff_table :
    isInferable ["V", "K"] tableParams = true ∧
    (inferAll tableParams (tableParams.map (Ty.fill tableTypes)) {}).2.ordered? ["V", "K"] =
      some [.rawPointer, .base .str] := by
  have hinferable : isInferable ["V", "K"] tableParams = true := by decide +kernel
  have hclear : ∀ P ∈ tableParams, Clear tableTypes P := by
    intro P hP
    refine (infer_fill_iff P {}).mp ?_
    revert P
    decide +kernel
  exact ⟨hinferable, ((inferable_inferred_iff tableTypes hinferable).mpr hclear).2.1⟩

/-- `*[]T` -/
def slicePointer : Syntax.TypeExpr :=
  .pointer (.slice (.named ⟨"T", ⟨13, 14, 0⟩⟩ [] ⟨13, 14, 0⟩) ⟨11, 14, 0⟩) ⟨10, 14, 0⟩

/-- `(T, int)` -/
def firstOfPair : Syntax.TypeExpr :=
  .tuple [.named ⟨"T", ⟨11, 12, 0⟩⟩ [] ⟨11, 12, 0⟩, .named ⟨"int", ⟨14, 17, 0⟩⟩ [] ⟨14, 17, 0⟩]
    ⟨10, 18, 0⟩

/-- Annotations have both types, and both mention `T`; but an argument of exactly the
type tells nothing about `T`. -/
theorem slicePointer_not_inferred :
    (∃ P s', Check.run .empty {} 3 { templates := ["T"] } (Check.resolve slicePointer) {} =
        some (some P, s') ∧
      isInferable ["T"] [P] = true ∧ (infer P (P.fill fun _ => .base .int) {}).1 = false ∧
      ((infer P (P.fill fun _ => .base .int) {}).2.ordered? ["T"]).isNone = true) ∧
    ∃ P s', Check.run .empty {} 3 { templates := ["T"] } (Check.resolve firstOfPair) {} =
        some (some P, s') ∧
      isInferable ["T"] [P] = true ∧ (infer P (P.fill fun _ => .base .int) {}).1 = false ∧
      ((infer P (P.fill fun _ => .base .int) {}).2.ordered? ["T"]).isNone = true :=
  ⟨⟨_, _, rfl, by decide +kernel, by decide +kernel, by decide +kernel⟩,
    _, _, rfl, by decide +kernel, by decide +kernel, by decide +kernel⟩

end Generic

end JaneCheck
