import JaneCheck.Proofs.SelfCompatibility

/-!
# What assignment reports

Two tuples with equally many components are compared component by component,
through nested tuples and without a stop at the first fault. The comparison ends
at positions (`Meets`) where two types face each other that are not compared so:
leaves, or a tuple against a type that is no tuple or has another number of
components. Each of these pairs is accepted or is a fault (`Fault`), and the
problems found are one for each fault, in the order of the positions
(`exists_locates`).
-/

namespace JaneCheck

/-! ## Positions -/

namespace Ty

/-- Both are tuples, with equally many components. -/
def Aligned (t g : Ty) : Prop :=
  t.isTuple = true ∧ g.isTuple = true ∧ t.components.length = g.components.length

instance (t g : Ty) : Decidable (Aligned t g) := inferInstanceAs (Decidable (_ ∧ _ ∧ _))

/-- The comparison of `t` with `g` ends at a position, where `a` faces `b`. A
position has the place of a component, then the place inside of it, and so on. -/
inductive Meets : Ty → Ty → List Nat → Ty → Ty → Prop
  | here {t g} (h : ¬Aligned t g) : Meets t g [] t g
  | inside {t g u w a b i path} (h : Aligned t g) (ht : t.components[i]? = some u)
      (hg : g.components[i]? = some w) (hmeets : Meets u w path a b) :
      Meets t g (i :: path) a b

theorem meets_of_not_aligned {t g a b : Ty} {path : List Nat} (h : ¬Aligned t g) :
    Meets t g path a b ↔ path = [] ∧ a = t ∧ b = g := by
  constructor
  · intro hmeets
    cases hmeets with
    | here => exact ⟨rfl, rfl, rfl⟩
    | inside haligned => exact absurd haligned h
  · rintro ⟨rfl, rfl, rfl⟩
    exact .here h

theorem meets_of_aligned {t g a b : Ty} {path : List Nat} (h : Aligned t g) :
    Meets t g path a b ↔ ∃ i rest u w, path = i :: rest ∧ t.components[i]? = some u ∧
      g.components[i]? = some w ∧ Meets u w rest a b := by
  constructor
  · intro hmeets
    cases hmeets with
    | here hnot => exact absurd h hnot
    | inside _ ht hg hrest => exact ⟨_, _, _, _, rfl, ht, hg, hrest⟩
  · rintro ⟨i, rest, u, w, rfl, ht, hg, hrest⟩
    exact .inside h ht hg hrest

end Ty

/-! ## The rules in their order -/

namespace Compat

variable {k : Compat} {a b : Ty}

theorem check_of_trait (ha : a.isTrait = true) : k.check a b = k.traits a b := by
  unfold check
  simp [ha]

theorem check_of_given_trait (ha : a.isTrait = false) (hb : b.isTrait = true) :
    k.check a b = k.traits b a := by
  unfold check
  simp [ha, hb]

theorem check_reference {u : Ty} (hu : u.isTrait = false) (hb : b.isTrait = false) :
    k.check (.reference u) b =
      if (Ty.reference u).kind == b.kind then .compatible
      else if !k.allowAssign then .incompatible
      else k.check u b := by
  rw [check]
  simp [show (Ty.reference u).isTrait = false from hu, hb]

theorem check_of_given_reference (ha : a.isTrait = false) (hb : b.isTrait = false)
    (haref : a.isReference = false) (hbref : b.isReference = true) :
    k.check a b = .ofBool (a.kind == b.kind) := by
  unfold check
  cases a <;> simp_all [Ty.isReference]

theorem ofBool_eq_compatible {x : Bool} : Compatibility.ofBool x = .compatible ↔ x = true := by
  cases x <;> decide

theorem ofBool_ne_needsReference {x : Bool} : Compatibility.ofBool x ≠ .needsReference := by
  cases x <;> decide

theorem category_looked_through (r : Ty) :
    (if r.isReference then r.elem else r).category = r.category := by
  cases r <;> rfl

/-- Only a struct that stands for a trait may need a reference. -/
theorem traits_needsReference {l r : Ty} (h : k.traits l r = .needsReference) :
    l.category = .trait ∧ r.category = .struct := by
  have hvalue := category_looked_through r
  unfold traits at h
  generalize (if r.isReference then r.elem else r) = value at h hvalue
  split at h
  · cases h
  split at h
  · cases h
  next id hid =>
    refine ⟨Ty.category_of_trait? hid, ?_⟩
    dsimp only at h
    split at h
    next hstruct => exact hvalue.symm.trans (eq_of_beq hstruct)
    next =>
      split at h
      · exact absurd h ofBool_ne_needsReference
      · cases h

theorem check_ne_needsReference (a : Ty) (ha : a.isTrait = false) (hb : b.isTrait = false) :
    k.check a b ≠ .needsReference := by
  cases haref : a.isReference with
  | true =>
    cases a with
    | reference u =>
      rw [check_reference (u := u) ha hb]
      split
      · simp
      · split
        · simp
        · exact check_ne_needsReference u ha hb
    | _ => cases haref
  | false =>
    cases hbref : b.isReference with
    | true =>
      rw [check_of_given_reference ha hb haref hbref]
      exact ofBool_ne_needsReference
    | false =>
      rw [check_of_plain ha hb haref hbref]
      exact ofBool_ne_needsReference

/-- Of two types that need a reference one is a trait and the other a struct. -/
theorem categories_of_needsReference (h : k.check a b = .needsReference) :
    a.category = .trait ∧ b.category = .struct ∨ a.category = .struct ∧ b.category = .trait := by
  cases ha : a.isTrait with
  | true =>
    rw [check_of_trait ha] at h
    exact .inl (traits_needsReference h)
  | false =>
    cases hb : b.isTrait with
    | true =>
      rw [check_of_given_trait ha hb] at h
      exact .inr (traits_needsReference h).symm
    | false => exact absurd h (check_ne_needsReference a ha hb)

end Compat

/-! ## Faults -/

namespace Assign

variable {k : Assign} {t g : Ty}

/-- The type `any` accepts every value. -/
def Welcomes (k : Assign) (t : Ty) : Prop := k.ignoreAny = false ∧ t.isAny = true

/-- A value of type `g` may be stored in a slot of type `t`, none of them being a
tuple. -/
def Assignable (k : Assign) (t g : Ty) : Prop :=
  g.isVoid = false ∧ (k.Welcomes t ∨ k.compat.check t g = .compatible)

/-- A pair at which the comparison ends is not accepted. A tuple there has no
counterpart, and only `any` accepts it. -/
def Fault (k : Assign) (t g : Ty) : Prop :=
  if t.isTuple || g.isTuple then ¬k.Welcomes t else ¬k.Assignable t g

instance : Decidable (k.Welcomes t) := inferInstanceAs (Decidable (_ ∧ _))

instance : Decidable (k.Assignable t g) := inferInstanceAs (Decidable (_ ∧ _))

instance : Decidable (k.Fault t g) :=
  inferInstanceAs (Decidable (if _ || _ then ¬k.Welcomes t else ¬k.Assignable t g))

/-- What is reported of a fault. -/
def complaint (k : Assign) (t g : Ty) : Problem :=
  match k.compat.check t g with
  | .needsReference => .traitNeedsReference t.kind
  | _ => mismatch t g

theorem complaint_of_isVoid (h : g.isVoid = true) : k.complaint t g = mismatch t g := by
  have hg : g.category = .void := eq_of_beq h
  unfold complaint
  split
  next hcheck => rcases Compat.categories_of_needsReference hcheck with h | h <;> simp_all
  next => rfl

theorem complaint_of_isTuple (h : (t.isTuple || g.isTuple) = true) :
    k.complaint t g = mismatch t g := by
  unfold complaint
  split
  next hcheck =>
    rcases Compat.categories_of_needsReference hcheck with h' | h' <;> simp_all [Ty.isTuple]
  next => rfl

theorem compatProblems_eq (hvoid : g.isVoid = false) (hany : ¬k.Welcomes t) :
    k.compatProblems t g = if k.Assignable t g then [] else [k.complaint t g] := by
  have hiff : k.Assignable t g ↔ k.compat.check t g = .compatible := by
    simp [Assignable, hvoid, hany]
  simp only [hiff]
  unfold compatProblems complaint
  cases k.compat.check t g <;> simp

theorem not_welcomes_of_isTuple (h : t.isTuple = true) : ¬k.Welcomes t := by
  rintro ⟨-, hany⟩
  unfold Ty.isAny at hany
  split at hany
  · cases h
  · cases hany

/-- The verdict on two types that are not compared by components. -/
theorem verdict_of_not_aligned {width : Nat} {parts : List Problem} (h : ¬Ty.Aligned t g)
    (hwidth : t.isTuple = true → width = t.components.length) :
    k.verdict t g width parts = if k.Fault t g then [k.complaint t g] else [] := by
  unfold verdict
  split
  next hvoid =>
    have hfault : k.Fault t g := by
      unfold Fault
      split
      next htuple =>
        have hg : g.isTuple = false := by simp_all [Ty.isTuple, Ty.isVoid]
        exact not_welcomes_of_isTuple (by simpa [hg] using htuple)
      next => simp [Assignable, hvoid]
    rw [if_pos hfault, complaint_of_isVoid hvoid]
  next hvoid =>
    replace hvoid : g.isVoid = false := by simpa using hvoid
    split
    next hany =>
      have hwelcome : k.Welcomes t := by simpa [Welcomes] using hany
      have hfault : ¬k.Fault t g := by
        unfold Fault
        split <;> simp [Assignable, hvoid, hwelcome]
      rw [if_neg hfault]
    next hany =>
      have hwelcome : ¬k.Welcomes t := by simpa [Welcomes] using hany
      split
      next htuple =>
        have hwidth' : ¬(t.isTuple && g.isTuple && width == g.components.length) = true := by
          intro hall
          simp only [Bool.and_eq_true, beq_iff_eq] at hall
          obtain ⟨⟨ht, hg⟩, hlen⟩ := hall
          exact h ⟨ht, hg, (hwidth ht).symm.trans hlen⟩
        rw [if_neg hwidth', if_pos (by simpa [Fault, htuple] using hwelcome),
          complaint_of_isTuple htuple]
      next htuple =>
        rw [compatProblems_eq hvoid hwelcome]
        simp [Fault, htuple]

/-- Tuples with equally many components have the problems of their components. -/
theorem verdict_of_aligned {parts : List Problem} (h : Ty.Aligned t g) :
    k.verdict t g t.components.length parts = parts := by
  obtain ⟨ht, hg, hlen⟩ := h
  have hvoid : g.isVoid = false := by simp_all [Ty.isTuple, Ty.isVoid]
  have hany : ¬k.Welcomes t := not_welcomes_of_isTuple ht
  simp_all [verdict, Welcomes]

theorem componentProblems_eq (ts gs : List Ty) :
    k.componentProblems ts gs = (List.zipWith k.typeProblems ts gs).flatten := by
  induction ts generalizing gs with
  | nil => simp [componentProblems]
  | cons t ts ih =>
    cases gs with
    | nil => simp [componentProblems]
    | cons g gs => simp [componentProblems, typeProblems, ih]

theorem verdict_eq {width : Nat} {parts : List Problem}
    (hwidth : t.isTuple = true → width = t.components.length) :
    k.verdict t g width parts =
      if Ty.Aligned t g then parts else if k.Fault t g then [k.complaint t g] else [] := by
  split
  next h =>
    rw [hwidth h.1]
    exact verdict_of_aligned h
  next h => exact verdict_of_not_aligned h hwidth

theorem coreProblems_eq (u : Ty) (h : t.core = u.core) :
    k.coreProblems t u g =
      if Ty.Aligned t g then (List.zipWith k.typeProblems t.components g.components).flatten
      else if k.Fault t g then [k.complaint t g] else [] := by
  cases u with
  | pointer u | reference u => exact coreProblems_eq u h
  | tuple ts =>
    have hparts : t.components = ts := by simp [Ty.components, h, Ty.core]
    show k.verdict t g ts.length (k.componentProblems ts g.components) = _
    rw [verdict_eq fun _ => by rw [hparts], componentProblems_eq, hparts]
  | base c =>
    have hparts : t.components = [] := by simp [Ty.components, h, Ty.core]
    show k.verdict t g 0 [] = _
    rw [verdict_eq fun _ => by rw [hparts]; rfl, hparts]
    rfl
  | _ =>
    have htuple : t.isTuple = false := by
      rw [Ty.isTuple, ← Ty.category_core, h]
      rfl
    have haligned : ¬Ty.Aligned t g := fun hal => Bool.false_ne_true (htuple.symm.trans hal.1)
    show k.verdict t g 0 [] = _
    rw [verdict_eq (by simp [htuple]), if_neg haligned, if_neg haligned]

/-- Tuples with equally many components have the problems of their components; any
other two types have one problem, if they have any. -/
theorem typeProblems_eq (t g : Ty) :
    k.typeProblems t g =
      if Ty.Aligned t g then (List.zipWith k.typeProblems t.components g.components).flatten
      else if k.Fault t g then [k.complaint t g] else [] :=
  coreProblems_eq t rfl

/-! ## Where the faults are -/

/-- The faults between two types, each with its position, in the order of the
positions. -/
structure Locates (k : Assign) (t g : Ty) (faults : List (List Nat × Ty × Ty)) : Prop where
  increasing : (faults.map (·.1)).Pairwise (· < ·)
  mem_iff : ∀ path a b, (path, a, b) ∈ faults ↔ Ty.Meets t g path a b ∧ k.Fault a b

/-- The faults of components, the first of which has place `n`. -/
structure LocatesAll (k : Assign) (n : Nat) (ts gs : List Ty)
    (faults : List (List Nat × Ty × Ty)) : Prop where
  increasing : (faults.map (·.1)).Pairwise (· < ·)
  mem_iff : ∀ path a b, (path, a, b) ∈ faults ↔
    ∃ i rest u w, path = (n + i) :: rest ∧ ts[i]? = some u ∧ gs[i]? = some w ∧
      Ty.Meets u w rest a b ∧ k.Fault a b

/-- One problem for each of the faults. -/
def complaints (k : Assign) (faults : List (List Nat × Ty × Ty)) : List Problem :=
  faults.map fun (_, a, b) => k.complaint a b

/-- The faults of the first component come before those of the others. -/
theorem LocatesAll.cons {n : Nat} {u w : Ty} {ts gs : List Ty}
    {first others : List (List Nat × Ty × Ty)} (hfirst : k.Locates u w first)
    (hothers : k.LocatesAll (n + 1) ts gs others) :
    k.LocatesAll n (u :: ts) (w :: gs)
      (first.map (fun (path, a, b) => (n :: path, a, b)) ++ others) where
  increasing := by
    rw [List.map_append, List.map_map, List.pairwise_append]
    refine ⟨?_, hothers.increasing, ?_⟩
    · have hcons : ∀ p q : List Nat, p < q → n :: p < n :: q := fun p q h => by simpa using h
      simpa [List.map_map, Function.comp_def] using hfirst.increasing.map (n :: ·) hcons
    · intro p hp q hq
      obtain ⟨⟨path, a, b⟩, -, rfl⟩ := List.mem_map.mp hp
      obtain ⟨⟨path', a', b'⟩, hmem, rfl⟩ := List.mem_map.mp hq
      obtain ⟨i, rest, _, _, rfl, -⟩ := (hothers.mem_iff _ _ _).mp hmem
      exact List.cons_lt_cons_iff.mpr (.inl (by omega))
  mem_iff path a b := by
    rw [List.mem_append, hothers.mem_iff]
    constructor
    · rintro (hmem | ⟨i, rest, u', w', rfl, hu, hw, hfault⟩)
      · obtain ⟨⟨path, a, b⟩, hmem, he⟩ := List.mem_map.mp hmem
        cases he
        exact ⟨0, path, u, w, rfl, rfl, rfl, (hfirst.mem_iff _ _ _).mp hmem⟩
      · exact ⟨i + 1, rest, u', w', by rw [show n + 1 + i = n + (i + 1) by omega], hu, hw, hfault⟩
    · rintro ⟨i, rest, u', w', rfl, hu, hw, hfault⟩
      cases i with
      | zero =>
        cases hu
        cases hw
        exact .inl (List.mem_map.mpr ⟨_, (hfirst.mem_iff _ _ _).mpr hfault, rfl⟩)
      | succ i =>
        exact .inr ⟨i, rest, u', w', by rw [show n + 1 + i = n + (i + 1) by omega], hu, hw, hfault⟩

theorem exists_locatesAll {ts : List Ty}
    (hts : ∀ t ∈ ts, ∀ g, ∃ faults, k.Locates t g faults ∧ k.typeProblems t g = k.complaints faults)
    (n : Nat) (gs : List Ty) :
    ∃ faults, k.LocatesAll n ts gs faults ∧
      (List.zipWith k.typeProblems ts gs).flatten = k.complaints faults := by
  induction ts generalizing n gs with
  | nil => exact ⟨[], ⟨by simp, by simp⟩, by simp [complaints]⟩
  | cons t ts ih =>
    cases gs with
    | nil => exact ⟨[], ⟨by simp, by simp⟩, by simp [complaints]⟩
    | cons g gs =>
      obtain ⟨first, hfirst, hproblems⟩ := hts t (by simp) g
      obtain ⟨others, hothers, hrest⟩ := ih (fun t ht => hts t (by simp [ht])) (n + 1) gs
      refine ⟨_, .cons hfirst hothers, ?_⟩
      simp [complaints, hproblems, hrest]

theorem locates_of_not_aligned (h : ¬Ty.Aligned t g) :
    k.Locates t g (if k.Fault t g then [([], t, g)] else []) where
  increasing := by split <;> simp
  mem_iff path a b := by
    rw [Ty.meets_of_not_aligned h]
    split
    next hfault =>
      simp only [List.mem_singleton, Prod.mk.injEq]
      constructor
      · rintro ⟨rfl, rfl, rfl⟩
        exact ⟨⟨rfl, rfl, rfl⟩, hfault⟩
      · exact fun h => h.1
    next hfault =>
      simp only [List.not_mem_nil, false_iff]
      rintro ⟨⟨rfl, rfl, rfl⟩, hfault'⟩
      exact hfault hfault'

/-- Every fault is reported once, and nothing else is. -/
theorem exists_locates (t g : Ty) :
    ∃ faults, k.Locates t g faults ∧ k.typeProblems t g = k.complaints faults := by
  -- the second type changes on the way down, with the components of the first
  induction t using Ty.inductionOnParts generalizing g with
  | step t ih =>
    rw [typeProblems_eq]
    split
    next haligned =>
      have hcomponents : ∀ u ∈ t.components, ∀ g, ∃ faults,
          k.Locates u g faults ∧ k.typeProblems u g = k.complaints faults := fun u hu =>
        have ⟨p, hp⟩ := Ty.part?_of_mem_components hu
        ih p u hp
      obtain ⟨faults, hlocates, hproblems⟩ := exists_locatesAll hcomponents 0 g.components
      refine ⟨faults, ⟨hlocates.increasing, fun path a b => ?_⟩, hproblems⟩
      rw [hlocates.mem_iff, Ty.meets_of_aligned haligned]
      simp only [Nat.zero_add, ← exists_and_right, and_assoc]
    next haligned =>
      refine ⟨_, locates_of_not_aligned haligned, ?_⟩
      split <;> rfl

/-! ## Values -/

/-- A value may be stored in a slot of type `t`: it is no method or generic
function, and it lies in the range of the slot or, where there is no range to lie
in, no two types that face each other are a fault. -/
def Takes (k : Assign) (t : Ty) (v : Value) : Prop :=
  notStorable? v = none ∧
    (inRange? k.wordSize t v = some true ∨
      inRange? k.wordSize t v = none ∧ ∀ path a b, Ty.Meets t v.type path a b → ¬k.Fault a b)

theorem typeProblems_eq_nil_iff :
    k.typeProblems t g = [] ↔ ∀ path a b, Ty.Meets t g path a b → ¬k.Fault a b := by
  obtain ⟨faults, hlocates, hproblems⟩ := k.exists_locates t g
  have hempty : k.typeProblems t g = [] ↔ faults = [] := by simp [hproblems, complaints]
  rw [hempty, List.eq_nil_iff_forall_not_mem]
  constructor
  · exact fun h path a b hmeets hfault => h _ ((hlocates.mem_iff path a b).mpr ⟨hmeets, hfault⟩)
  · rintro h ⟨path, a, b⟩ hmem
    obtain ⟨hmeets, hfault⟩ := (hlocates.mem_iff path a b).mp hmem
    exact h path a b hmeets hfault

theorem check_eq_nil_iff {v : Value} : k.check t v = [] ↔ k.Takes t v := by
  unfold check Takes
  cases notStorable? v with
  | some p => simp
  | none =>
    cases inRange? k.wordSize t v with
    | some fits => cases fits <;> simp
    | none => simp [typeProblems_eq_nil_iff]

/-- Tuples are neither functions nor numbers. -/
theorem check_of_isTuple {v : Value} (h : v.type.isTuple = true) :
    k.check t v = k.typeProblems t v.type := by
  have hcat : v.type.category = .tuple := eq_of_beq h
  have hfn : v.type.isFunction = false := by
    unfold Ty.isFunction
    split
    next hfn => simp [hfn, Ty.category] at hcat
    next hfn => simp [hfn, Ty.category] at hcat
    next => rfl
  have hstorable : notStorable? v = none := by simp [notStorable?, hfn]
  have hrange : inRange? k.wordSize t v = none := by
    have hnumber : v.type.isNumber = false := by
      simp [Ty.isNumber, hcat, Category.isNumeric, Category.isInteger, Category.isSigned,
        Category.isUnsigned, Category.isFloat]
    unfold inRange?
    cases v.constant <;> simp [hnumber]
  simp [check, hstorable, hrange]

end Assign

/-! ## Reports -/

namespace Check

/-- A value is stored exactly if nothing is reported; what was reported before
stays, and of two tuples each fault is reported once. -/
theorem assign_reports_faults (k : Assign) (t : Ty) (v : Value) (span : Span) (env : Env)
    (s : State) :
    ∃ (ok : Bool) (new : List Diagnostic),
      (assignBy k t v span env).run s = some (ok, { s with diags := s.diags ++ new }) ∧
      (ok = true ↔ new = []) ∧ (ok = true ↔ k.Takes t v) ∧
      (t.isTuple = true → v.type.isTuple = true → ∃ faults,
        k.Locates t v.type faults ∧ new = (k.complaints faults).map (Diagnostic.mk · span)) := by
  have hrun : (assignBy k t v span env).run s = some ((k.check t v).isEmpty,
      { s with diags := s.diags ++ (k.check t v).map (Diagnostic.mk · span) }) := by
    rw [assignBy_eq]
    rfl
  refine ⟨_, _, hrun, ?_, ?_, ?_⟩
  · simp
  · rw [List.isEmpty_iff, Assign.check_eq_nil_iff]
  · intro _ htuple
    obtain ⟨faults, hlocates, hproblems⟩ := k.exists_locates t v.type
    exact ⟨faults, hlocates, by rw [Assign.check_of_isTuple htuple, hproblems]⟩

/-- Assignment where struct 0 implements trait 0, whose methods change it. -/
def changedShapes : Assign where
  defs := ⟨fun _ _ => true, fun _ => true, fun _ => .base .u32⟩
  wordSize := .w64

/-- `((int, Shape), any, (str, bool))` -/
def nestedSlot : Ty :=
  .tuple [.tuple [.base .int, .trait 0 "Shape"], .base .any, .tuple [.base .str, .bool]]

/-- `((str, Point), (int, int), str)` -/
def nestedValue : Ty :=
  .tuple [.tuple [.base .str, .struct 0 "Point" []], .tuple [.base .int, .base .int], .base .str]

/-- What is wrong with it, at the positions `[0, 0]`, `[0, 1]` and `[2]`. -/
def nestedProblems : List Problem :=
  [.incompatible "int" "str", .traitNeedsReference "Shape", .incompatible "(str, bool)" "str"]

theorem assign_reports_faults_nested :
    nestedSlot.isTuple = true ∧ nestedValue.isTuple = true ∧ ∃ faults,
      changedShapes.Locates nestedSlot nestedValue faults ∧
        changedShapes.complaints faults = nestedProblems := by
  obtain ⟨ok, new, hrun, -, -, hfaults⟩ := assign_reports_faults changedShapes nestedSlot
    (.ofType nestedValue) ⟨0, 1, 0⟩ (envAt shapes {} 0 {}) {}
  obtain ⟨faults, hlocates, rfl⟩ := hfaults rfl rfl
  have hdiags : nestedProblems = _ :=
    congrArg (fun r => (r.map fun (_, s) => s.diags.toList.map (·.problem)).getD []) hrun
  exact ⟨rfl, rfl, faults, hlocates, by simpa [Function.comp_def] using hdiags.symm⟩

/-- `(any, int)` takes `((int, int), int)`: `any` faces a tuple, and nothing is
reported. -/
theorem any_faces_tuple :
    Ty.Meets (.tuple [.base .any, .base .int]) (.tuple [.tuple [.base .int, .base .int], .base .int])
        [0] (.base .any) (.tuple [.base .int, .base .int]) ∧
      (Ty.base .any).isTuple = false ∧ (Ty.tuple [.base .int, .base .int]).isTuple = true ∧
      changedShapes.check (.tuple [.base .any, .base .int])
        (.ofType (.tuple [.tuple [.base .int, .base .int], .base .int])) = [] :=
  ⟨.inside ⟨rfl, rfl, rfl⟩ rfl rfl (.here (by decide)), rfl, rfl, rfl⟩

end Check

end JaneCheck
