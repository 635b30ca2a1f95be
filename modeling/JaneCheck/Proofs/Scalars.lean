import JaneCheck.Proofs.Outcomes

/-!
# Operators on scalars

Literals have scalar types: numbers, texts, truth values and `nil`. Of the
domains of a binary operator only six are left for them (`dispatch_scalar`). The
result is a scalar again, or void, and nothing about definitions is asked for.
-/

namespace JaneCheck

/-- The type is a scalar by itself, without modifiers. -/
def Ty.Scalar (t : Ty) : Prop := ∃ c : Category, c.isScalar = true ∧ t = .base c

theorem Ty.Scalar.eq_false {t : Ty} {P : Ty → Bool} (h : t.Scalar)
    (hP : ∀ c : Category, c.isScalar = true → P (.base c) = false) : P t = false := by
  obtain ⟨c, hc, rfl⟩ := h
  exact hP c hc

theorem Category.isSignedNumeric_of_isScalar {c : Category} (hc : c.isScalar = true)
    (hnil : ¬ (c == .nil) = true) (hbool : ¬ (c == .bool) = true) (hstr : ¬ (c == .str) = true)
    (hunsigned : c.isUnsigned = false) : c.isSignedNumeric = true := by
  revert hc hnil hbool hstr hunsigned
  cases c <;> decide

theorem Ty.base_of_isNumber {t : Ty} (h : t.isNumber = true) :
    ∃ c : Category, c.isNumeric = true ∧ t = .base c := by
  obtain ⟨hpure, hnumeric⟩ := Bool.and_eq_true_iff.mp h
  cases t with
  | base c => exact ⟨c, hnumeric, rfl⟩
  | pointer | reference => cases hpure
  | _ => cases hnumeric

theorem Ty.isVoid_of_isNumber {t : Ty} (h : t.isNumber = true) : t.isVoid = false := by
  obtain ⟨c, hc, rfl⟩ := base_of_isNumber h
  revert hc
  cases c <;> decide

namespace Operator

open Syntax (BinOp)

variable {s : Setting} {l r : Value} {op : BinOp}

theorem dispatch_scalar (enums : Value → Value → Outcome) (hl : l.type.Scalar)
    (hr : r.type.Scalar) :
    dispatch s enums l op r =
      if op == .and || op == .or then logical l op r
      else if l.type.isNil || r.type.isNil then nils s l op r
      else if l.type.category == .bool || r.type.category == .bool then booleans s l op r
      else if l.type.category == .str || r.type.category == .str then texts l op r
      else if l.type.category.isFloat || r.type.category.isFloat then floats s l op r
      else numbers s (!(l.type.category.isUnsigned || r.type.category.isUnsigned)) l op r := by
  unfold dispatch
  extract_lets either isOf
  have hno : ∀ P : Ty → Bool, (∀ c : Category, c.isScalar = true → P (.base c) = false) →
      either P = false := by
    intro P hP
    simp only [either, hl.eq_false hP, hr.eq_false hP, Bool.or_self]
  have hdeclared : ∀ c : Category, c.isScalar = true → (Ty.base c).isFunction = false ∧
      (Ty.base c).isEnum = false ∧ (Ty.base c).isStruct = false ∧ (Ty.base c).isTrait = false ∧
      isOf .any (.base c) = false := by
    intro c hc
    cases c <;> first | exact ⟨rfl, rfl, rfl, rfl, rfl⟩ | cases hc
  have hfunction : either Ty.isFunction = false := hno _ fun c hc => (hdeclared c hc).1
  have harray : either Ty.isArray = false := hno _ fun c _ => rfl
  have hslice : either Ty.isSlice = false := hno _ fun c _ => rfl
  have hmap : either Ty.isMap = false := hno _ fun c _ => rfl
  have hpointer : either Ty.isPointer = false := hno _ fun c _ => rfl
  have henum : either Ty.isEnum = false := hno _ fun c hc => (hdeclared c hc).2.1
  have hstruct : either Ty.isStruct = false := hno _ fun c hc => (hdeclared c hc).2.2.1
  have htrait : either Ty.isTrait = false := hno _ fun c hc => (hdeclared c hc).2.2.2.1
  have hany : either (isOf .any) = false := hno _ fun c hc => (hdeclared c hc).2.2.2.2
  simp only [hfunction, harray, hslice, hmap, hpointer, henum, hstruct, htrait, hany,
    Bool.or_self, Bool.false_eq_true, if_false]
  refine ite_congr rfl (fun _ => rfl) fun _ => ite_congr rfl (fun _ => rfl) fun hnil => ?_
  refine ite_congr rfl (fun _ => rfl) fun hbool => ite_congr rfl (fun _ => rfl) fun hstr => ?_
  refine ite_congr rfl (fun _ => rfl) fun hfloat => ?_
  show (if (l.type.category.isUnsigned || r.type.category.isUnsigned) = true then _ else _) = _
  cases hunsigned : l.type.category.isUnsigned || r.type.category.isUnsigned with
  | true => rfl
  | false =>
    -- what is left is an integer, and not an unsigned one
    have hsigned : l.type.category.isSignedNumeric = true := by
      obtain ⟨c, hc, ht⟩ := hl
      rw [ht] at hnil hbool hstr hunsigned ⊢
      simp only [Bool.or_eq_true, not_or] at hnil hbool hstr
      exact Category.isSignedNumeric_of_isScalar hc hnil.1 hbool.1 hstr.1
        (Bool.or_eq_false_iff.mp hunsigned).1
    have heither : either (·.category.isSignedNumeric) = true := by
      simp only [either, hsigned, Bool.true_or]
    rw [heither]
    rfl

/-! ## Numbers -/

/-- Numbers have two domains, one for floats and one for integers. -/
theorem operate_numbers (hl : l.type.isNumber = true) (hr : r.type.isNumber = true)
    (hop : (op == .and || op == .or) = false) :
    operate s l op r =
      if l.type.category.isFloat || r.type.category.isFloat then floats s l op r
      else numbers s (!(l.type.category.isUnsigned || r.type.category.isUnsigned)) l op r := by
  obtain ⟨cl, hcl, htl⟩ := Ty.base_of_isNumber hl
  obtain ⟨cr, hcr, htr⟩ := Ty.base_of_isNumber hr
  have hsorts : ∀ c : Category, c.isNumeric = true → c.isScalar = true ∧ (c == .nil) = false ∧
      (c == .bool) = false ∧ (c == .str) = false := by
    intro c hc
    cases c <;> first | exact ⟨rfl, rfl, rfl, rfl⟩ | cases hc
  obtain ⟨hlscalar, hlnil, hlbool, hlstr⟩ := hsorts cl hcl
  obtain ⟨hrscalar, hrnil, hrbool, hrstr⟩ := hsorts cr hcr
  unfold operate
  rw [dispatch_scalar _ ⟨cl, hlscalar, htl⟩ ⟨cr, hrscalar, htr⟩]
  simp only [hop, htl, htr, Ty.isNil, Ty.category, hlnil, hlbool, hlstr, hrnil, hrbool, hrstr,
    Bool.or_self, Bool.false_eq_true, if_false]

/-! ## Results -/

theorem within_solve_scalar (hl : l.type.Scalar) (hr : r.type.Scalar) :
    Within (fun t => t.Scalar ∨ t = .void) (solve s l op r) := by
  have henum : ∀ c : Category, c.isScalar = true → (Ty.base c).isEnum = false := fun c hc => by
    cases c <;> first | rfl | cases hc
  refine within_solve ⟨.inr rfl, fun hc => .inl ⟨_, hc, rfl⟩⟩ (.inl hl) (.inl hr) fun he => ?_
  rw [hl.eq_false henum, hr.eq_false henum] at he
  cases he

/-! ## Definitions -/

/-- Whether scalars are compatible does not depend on definitions. -/
theorem compatible_scalar {d d' : Definitions} {ws : WordSize} {ignoreAny : Bool} {a b : Ty}
    (ha : a.Scalar) (hb : b.Scalar) :
    compatible ⟨d, ws⟩ ignoreAny a b = compatible ⟨d', ws⟩ ignoreAny a b := by
  have htrait : ∀ c : Category, c.isScalar = true → (Ty.base c).isTrait = false := fun c hc => by
    cases c <;> first | rfl | cases hc
  have hno : (a.isTrait || b.isTrait) = false := by
    rw [ha.eq_false htrait, hb.eq_false htrait]
    rfl
  obtain ⟨ca, -, rfl⟩ := ha
  simp only [compatible, Compat.check, hno]
  rfl

/-- An operator on scalars does the same whatever the definitions. -/
theorem solve_scalar_defs {d d' : Definitions} {ws : WordSize} (hl : l.type.Scalar)
    (hr : r.type.Scalar) : solve ⟨d, ws⟩ l op r = solve ⟨d', ws⟩ l op r := by
  have hnils : nils ⟨d, ws⟩ l op r = nils ⟨d', ws⟩ l op r := by
    unfold nils
    rw [compatible_scalar hl hr]
  have hbooleans : booleans ⟨d, ws⟩ l op r = booleans ⟨d', ws⟩ l op r := by
    unfold booleans
    rw [compatible_scalar hl hr]
  have hoperate : operate ⟨d, ws⟩ l op r = operate ⟨d', ws⟩ l op r := by
    unfold operate
    rw [dispatch_scalar _ hl hr, dispatch_scalar _ hl hr, hnils, hbooleans]
    rfl
  unfold solve
  rw [hoperate]

end Operator

end JaneCheck
