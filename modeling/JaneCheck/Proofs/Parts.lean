import JaneCheck.Ty

/-!
# Parts of types

A type is a core behind pointers and references (`wrap_core`), and its parts are
those of its core: the elements of a slice, the parameters of a function and so on.
A position in a type is a path of parts. Parts are smaller than the type, so what
follows from the parts of a type holds of all types (`inductionOnParts`).
-/

namespace JaneCheck.Ty

/-! ## Modifiers -/

/-- A type behind pointers and references. -/
def wrap : List Modifier → Ty → Ty
  | [], t => t
  | .pointer :: ms, t => .pointer (wrap ms t)
  | .reference :: ms, t => .reference (wrap ms t)

theorem wrap_core (t : Ty) : wrap t.leadingModifiers t.core = t := by
  cases t with
  | pointer t | reference t => simp [leadingModifiers, core, wrap, wrap_core t]
  | _ => rfl

theorem category_wrap (ms : List Modifier) (t : Ty) : (wrap ms t).category = t.category := by
  induction ms with
  | nil => rfl
  | cons m ms ih => cases m <;> exact ih

variable {t u : Ty} {id : StructId} {gs : List Ty}

theorem kind_wrap_congr (ms : List Modifier) (h : t.kind = u.kind) :
    (wrap ms t).kind = (wrap ms u).kind := by
  induction ms with
  | nil => exact h
  | cons m ms ih => cases m <;> simp [wrap, kind, ih]

theorem category_core (t : Ty) : t.core.category = t.category := by
  cases t with
  | pointer u | reference u => exact category_core u
  | _ => rfl

@[simp] theorem core_ne_pointer (t u : Ty) : t.core ≠ .pointer u ∧ t.core ≠ .reference u := by
  cases t with
  | pointer t | reference t => exact core_ne_pointer t u
  | _ => exact ⟨nofun, nofun⟩

theorem core_wrap (ms : List Modifier) (t : Ty) : (wrap ms t).core = t.core := by
  induction ms with
  | nil => rfl
  | cons m ms ih => cases m <;> exact ih

theorem leadingModifiers_wrap (ms : List Modifier) (t : Ty) :
    (wrap ms t).leadingModifiers = ms ++ t.leadingModifiers := by
  induction ms with
  | nil => rfl
  | cons m ms ih => cases m <;> simp [wrap, leadingModifiers, ih]

theorem core_of_leadingModifiers (h : t.leadingModifiers = []) : t.core = t := by
  have hwrap := t.wrap_core
  rwa [h] at hwrap

theorem modifiers_of_category (h : t.category ≠ .raw) : t.modifiers = t.leadingModifiers := by
  unfold modifiers
  split
  next hraw =>
    unfold isRawPointer at hraw
    split at hraw
    · exact absurd rfl h
    · cases hraw
  next => rfl

theorem isRawPointer_wrap {ms : List Modifier} : (wrap ms t).isRawPointer = true ↔
      ms = [] ∧ t.isRawPointer = true ∨ ms = [.pointer] ∧ t = .base .raw := by
  unfold isRawPointer
  cases ms with
  | nil => simp [wrap]
  | cons m ms =>
    cases m with
    | reference => simp [wrap]
    | pointer =>
      cases ms with
      | nil =>
        simp only [wrap]
        split <;> simp_all
      | cons m' ms => cases m' <;> simp [wrap]

/-- A type begins with the modifiers in front of it, unless they make it the pointer to
memory of no type. -/
theorem isPrefixOf_modifiers_wrap {ms : List Modifier} :
    ms.isPrefixOf (wrap ms t).modifiers = true ↔ ¬(ms = [.pointer] ∧ t = .base .raw) := by
  rw [List.isPrefixOf_iff_prefix, modifiers]
  split
  next hraw =>
    rcases isRawPointer_wrap.mp hraw with ⟨rfl, -⟩ | ⟨rfl, rfl⟩ <;> simp
  next hraw =>
    rw [leadingModifiers_wrap]
    exact iff_of_true (List.prefix_append _ _) fun h => hraw (isRawPointer_wrap.mpr (.inr h))

theorem core_of_signature? {sig : FnSig} (h : t.signature? = some sig) :
    t.core = .function sig := by
  unfold signature? at h
  split at h
  next hcore => rw [hcore, Option.some.inj h]
  next => cases h

theorem core_of_struct? (h : t.struct? = some (id, gs)) : ∃ name, t.core = .struct id name gs := by
  unfold struct? at h
  split at h
  next name _ hcore =>
    cases h
    exact ⟨name, hcore⟩
  next => cases h

theorem core_of_trait? {id : TraitId} (h : t.trait? = some id) :
    ∃ name, t.core = .trait id name := by
  unfold trait? at h
  split at h
  next name hcore =>
    cases h
    exact ⟨name, hcore⟩
  next => cases h

theorem category_of_struct? (h : t.struct? = some (id, gs)) : t.category = .struct := by
  obtain ⟨name, hcore⟩ := core_of_struct? h
  rw [← category_core, hcore]
  rfl

theorem category_of_trait? {id : TraitId} (h : t.trait? = some id) : t.category = .trait := by
  obtain ⟨name, hcore⟩ := core_of_trait? h
  rw [← category_core, hcore]
  rfl

theorem same_symm {a b : Ty} (h : (a == b) = true) : (b == a) = true := by
  obtain ⟨hcategory, hkind⟩ := Bool.and_eq_true_iff.mp h
  exact Bool.and_eq_true_iff.mpr ⟨BEq.symm hcategory, BEq.symm hkind⟩

theorem same_wrap (ms : List Modifier) (h : (t == u) = true) : (wrap ms t == wrap ms u) = true := by
  obtain ⟨hcategory, hkind⟩ := Bool.and_eq_true_iff.mp h
  have hkind := kind_wrap_congr ms (eq_of_beq hkind)
  show ((wrap ms t).category == (wrap ms u).category && (wrap ms t).kind == (wrap ms u).kind) = true
  rw [category_wrap, category_wrap, hcategory, hkind]
  simp

/-! ## Positions -/

/-- A step from a type to one of its parts. Pointers and references in front of the
type are looked through. -/
inductive Part where
  | element | key | value | result
  | component (i : Nat) | param (i : Nat) | argument (i : Nat)

variable {p : Part}

/-- A part of a type without modifiers. -/
def ownPart? : Ty → Part → Option Ty
  | .slice t, .element | .array t _, .element => some t
  | .map k _, .key => some k
  | .map _ v, .value => some v
  | .tuple ts, .component i => ts[i]?
  | .function sig, .param i => sig.params[i]?.map (·.type)
  | .function sig, .result => some sig.ret
  | .struct _ _ gs, .argument i => gs[i]?
  | _, _ => none

def part? (t : Ty) (p : Part) : Option Ty := t.core.ownPart? p

/-- The type at a position: a path of parts. -/
def at? : List Part → Ty → Option Ty
  | [], t => some t
  | p :: path, t => (t.part? p).bind (at? path)

theorem at?_cons {path : List Part} :
    at? (p :: path) t = some u ↔ ∃ w, t.part? p = some w ∧ at? path w = some u :=
  Option.bind_eq_some_iff

theorem sizeOf_core_le (t : Ty) : sizeOf t.core ≤ sizeOf t := by
  cases t with
  | pointer t =>
    have hle := sizeOf_core_le t
    simp only [core, Ty.pointer.sizeOf_spec]
    omega
  | reference t =>
    have hle := sizeOf_core_le t
    simp only [core, Ty.reference.sizeOf_spec]
    omega
  | _ => exact Nat.le_refl _

theorem sizeOf_ownPart?_lt (h : t.ownPart? p = some u) : sizeOf u < sizeOf t := by
  unfold ownPart? at h
  split at h
  · cases h
    simp only [Ty.slice.sizeOf_spec]
    omega
  · cases h
    simp only [Ty.array.sizeOf_spec]
    omega
  · cases h
    simp only [Ty.map.sizeOf_spec]
    omega
  · cases h
    simp only [Ty.map.sizeOf_spec]
    omega
  · have hlt := List.sizeOf_lt_of_mem (List.mem_of_getElem? h)
    simp only [Ty.tuple.sizeOf_spec]
    omega
  next sig i =>
    obtain ⟨param, hparam, rfl⟩ := Option.map_eq_some_iff.mp h
    have hlt := List.sizeOf_lt_of_mem (List.mem_of_getElem? hparam)
    obtain ⟨params, ret, _, _, _⟩ := sig
    obtain ⟨_, type, _, _, _⟩ := param
    simp only [Ty.function.sizeOf_spec, Signature.mk.sizeOf_spec, Param.mk.sizeOf_spec] at hlt ⊢
    omega
  next sig =>
    cases h
    obtain ⟨params, ret, _, _, _⟩ := sig
    simp only [Ty.function.sizeOf_spec, Signature.mk.sizeOf_spec]
    omega
  · have hlt := List.sizeOf_lt_of_mem (List.mem_of_getElem? h)
    simp only [Ty.struct.sizeOf_spec]
    omega
  · cases h

theorem sizeOf_part?_lt (h : t.part? p = some u) : sizeOf u < sizeOf t :=
  Nat.lt_of_lt_of_le (sizeOf_ownPart?_lt h) (sizeOf_core_le t)

/-- What holds of a type whenever it holds of its parts holds of all types. -/
theorem inductionOnParts {P : Ty → Prop} (step : ∀ t, (∀ p u, t.part? p = some u → P u) → P t)
    (t : Ty) : P t :=
  step t fun p u hu =>
    have := sizeOf_part?_lt hu
    inductionOnParts step u
termination_by sizeOf t

theorem part?_of_mem_components (h : u ∈ t.components) : ∃ p, t.part? p = some u := by
  unfold components at h
  unfold part?
  split at h
  next k v hcore =>
    rw [hcore]
    rcases List.mem_cons.mp h with rfl | h
    · exact ⟨.key, rfl⟩
    · obtain rfl := List.mem_singleton.mp h
      exact ⟨.value, rfl⟩
  next ts hcore =>
    rw [hcore]
    obtain ⟨i, hi⟩ := List.mem_iff_getElem?.mp h
    exact ⟨.component i, hi⟩
  next => cases h

theorem part?_of_mem_params {sig : FnSig} (ht : t.core = .function sig)
    (h : u ∈ sig.params.map (·.type)) : ∃ p, t.part? p = some u := by
  obtain ⟨n, hn⟩ := List.mem_iff_getElem?.mp h
  rw [List.getElem?_map] at hn
  exact ⟨.param n, by rw [part?, ht]; exact hn⟩

theorem part?_of_mem_arguments {name : String} (ht : t.core = .struct id name gs) (h : u ∈ gs) :
    ∃ p, t.part? p = some u := by
  obtain ⟨n, hn⟩ := List.mem_iff_getElem?.mp h
  exact ⟨.argument n, by rw [part?, ht]; exact hn⟩

end JaneCheck.Ty
