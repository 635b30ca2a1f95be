import JaneCheck.Proofs.Folding

/-!
# Division of known words

Quotients and remainders of signed words whose types are any numbers, integers or
floats. The types select the domain of the operator and the type of the result; the
words alone say what is computed, and whether a division by zero is reported
(`Divides`).

With a float among its operands `%` looks for one of an integer type and takes that as
the left one, so it does not see their order (`floatMod_comm`). The remainder is that of
the left operand by the right one unless the left one has the type of a float: then it is
that of the right one by the left one.
-/

namespace JaneCheck

namespace Operator

open Syntax (BinOp)

/-- What an operator makes of the words `a` and `b`: a value that has the word of the
operation on their numbers, and a report of a division by zero. -/
structure Divides (op : WordOp) (a b : Int64) (o : Outcome) : Prop where
  word : ∃ w : Int64, o.1.constant = some (.int w) ∧ w.toInt = op.apply a.toInt b.toInt
  problems : o.2 = if b.toInt = 0 then [.divideByZero] else []
  isValue : o.1.type.isVoid = false

section Words

variable {s : Setting} {l r : Value} {a b : Int64} {op : WordOp}

theorem divides_arithmetic (hop : op.divides = true) (ha : l.constant = some (.int a))
    (hb : r.constant = some (.int b)) {t : Ty} (ht : t.isVoid = false) :
    Divides op a b (arithmetic l op.binOp r t) := by
  obtain ⟨w, hw, hfold⟩ := foldSigned_word op a b
  replace hfold : fold op.binOp (.int a) (.int b) = _ := hfold
  simp only [arithmetic, ha, hb, hfold, hop, true_and]
  exact ⟨⟨w, rfl, hw⟩, rfl, ht⟩

/-! ## Domains -/

theorem divides_numbers (hop : op.divides = true) (hl : l.type.isNumber = true)
    (hr : r.type.isNumber = true) (ha : l.constant = some (.int a))
    (hb : r.constant = some (.int b)) (signed : Bool) :
    Divides op a b (numbers s signed l op.binOp r) := by
  have hvoid : (promoted s l.type r.type).isVoid = false :=
    of_promoted (T := (·.isVoid = false)) (Ty.isVoid_of_isNumber hl) (Ty.isVoid_of_isNumber hr)
  have harith := divides_arithmetic hop ha hb hvoid
  simp only [numbers, (Bool.and_eq_true_iff.mp hl).2, (Bool.and_eq_true_iff.mp hr).2,
    Bool.and_self, if_true]
  cases op with
  | div | mod => exact harith
  | _ => cases hop

theorem floatMod_integer (hl : l.type.category.isInteger = true)
    (hb : r.constant = some (.int b)) :
    floatMod s l r = some (numbers s l.type.category.isSigned l .mod r) := by
  unfold floatMod
  rw [if_pos hl]
  simp only [hl, hb, Option.all_some, Const.fitsInt64, Bool.not_true, Bool.false_eq_true, if_false,
    if_true, Bool.true_or]
  cases hs : l.type.category.isSigned <;> simp

theorem floatMod_comm (hl : l.type.category.isInteger = false)
    (hr : r.type.category.isInteger = true) : floatMod s l r = floatMod s r l := by
  unfold floatMod
  rw [if_neg (by simp [hl]), if_pos hr]

theorem floatMod_floats (hl : l.type.category.isInteger = false)
    (hr : r.type.category.isInteger = false) : floatMod s l r = none := by
  unfold floatMod
  rw [if_neg (by simp [hl])]
  simp [hr]

theorem floats_div (hl : l.type.isNumber = true) (hr : r.type.isNumber = true)
    (ha : l.constant = some (.int a)) (hb : r.constant = some (.int b)) :
    Divides .div a b (floats s l .div r) := by
  have hvoid : (quotientType s l.type r.type).isVoid = false :=
    of_quotientType (T := (·.isVoid = false)) (Ty.isVoid_of_isNumber hl) (Ty.isVoid_of_isNumber hr)
  simp only [floats, (Bool.and_eq_true_iff.mp hl).2, (Bool.and_eq_true_iff.mp hr).2,
    Bool.and_self, if_true]
  exact divides_arithmetic rfl ha hb hvoid

theorem floats_mod (hl : l.type.isNumber = true) (hr : r.type.isNumber = true) :
    floats s l .mod r = (floatMod s l r).getD (reject (.operatorNotForFloat "%")) := by
  simp only [floats, (Bool.and_eq_true_iff.mp hl).2, (Bool.and_eq_true_iff.mp hr).2,
    Bool.and_self, if_true]
  rfl

/-- `%` has exchanged its operands: one of a float type stands on the left. -/
def Exchanges (op : WordOp) (l : Value) : Prop := op = .mod ∧ l.type.category.isFloat = true

theorem isFloat_of_not_integer (h : l.type.isNumber = true)
    (hl : l.type.category.isInteger = false) : l.type.category.isFloat = true := by
  have hnumeric := (Bool.and_eq_true_iff.mp h).2
  simpa [Category.isNumeric, hl] using hnumeric

theorem not_isFloat_of_integer (hl : l.type.category.isInteger = true) :
    ¬ l.type.category.isFloat = true := by
  revert hl
  cases l.type.category <;> decide

/-- The domain of floats. Two floats have no remainder. -/
theorem divides_floats (hop : op.divides = true) (hl : l.type.isNumber = true)
    (hr : r.type.isNumber = true) (ha : l.constant = some (.int a))
    (hb : r.constant = some (.int b))
    (hok : ∀ q ∈ (floats s l op.binOp r).2, q = .divideByZero) :
    (¬ Exchanges op l → Divides op a b (floats s l op.binOp r)) ∧
      (Exchanges op l → Divides op b a (floats s l op.binOp r)) := by
  cases op with
  | div => exact ⟨fun _ => floats_div hl hr ha hb, fun h => by cases h.1⟩
  | mod =>
    simp only [WordOp.binOp] at hok ⊢
    rw [floats_mod hl hr] at hok ⊢
    cases hli : l.type.category.isInteger with
    | true =>
      rw [floatMod_integer hli hb]
      refine ⟨fun _ => ?_, fun h => absurd h.2 (not_isFloat_of_integer hli)⟩
      exact divides_numbers rfl hl hr ha hb l.type.category.isSigned
    | false =>
      have hexchanges : Exchanges .mod l := ⟨rfl, isFloat_of_not_integer hl hli⟩
      refine ⟨fun h => absurd hexchanges h, fun _ => ?_⟩
      cases hri : r.type.category.isInteger with
      | true =>
        rw [floatMod_comm hli hri, floatMod_integer hri ha]
        exact divides_numbers rfl hr hl hb ha r.type.category.isSigned
      | false =>
        rw [floatMod_floats hli hri] at hok
        cases hok (.operatorNotForFloat "%") (by simp [reject])
  | _ => cases hop

theorem divides_operate (hop : op.divides = true) (hl : l.type.isNumber = true)
    (hr : r.type.isNumber = true) (ha : l.constant = some (.int a))
    (hb : r.constant = some (.int b))
    (hok : ∀ q ∈ (operate s l op.binOp r).2, q = .divideByZero) :
    (¬ Exchanges op l → Divides op a b (operate s l op.binOp r)) ∧
      (Exchanges op l → Divides op b a (operate s l op.binOp r)) := by
  have hword : (op.binOp == .and || op.binOp == .or) = false := by cases op <;> rfl
  rw [operate_numbers hl hr hword] at hok ⊢
  by_cases hfloat : (l.type.category.isFloat || r.type.category.isFloat) = true
  · rw [if_pos hfloat] at hok ⊢
    exact divides_floats hop hl hr ha hb hok
  · rw [if_neg hfloat]
    refine ⟨fun _ => divides_numbers hop hl hr ha hb _, fun h => ?_⟩
    exact absurd (by simp [h.2]) hfloat

/-- The choice of the type leaves the word as it is. -/
theorem Divides.settle {o : Outcome} (h : Divides op a b o) (hl : l.isConst = true)
    (hr : r.isConst = true) : Divides op a b (settle l r o.1, o.2) := by
  obtain ⟨⟨w, hw, hnumber⟩, hproblems, hvoid⟩ := h
  have hsigned : (Ty.base (.signedOfWidth (Category.signedWidth w))).isVoid = false := by
    unfold Category.signedOfWidth
    split <;> rfl
  simp only [Operator.settle, hvoid, hl, hr, hw, Bool.not_true, Bool.or_self, Bool.false_eq_true,
    if_false]
  split
  · exact ⟨⟨w, rfl, hnumber⟩, hproblems, hvoid⟩
  · exact ⟨⟨w, rfl, hnumber⟩, hproblems, hsigned⟩

/-- Division of known signed words, whatever numbers their types are, if it is not
rejected. The quotient is that of the left word by the right one, and so is the remainder
unless the left operand has the type of a float. In that case it is the remainder of the
right word by the left one, and it is the left one that is looked at for a division by
zero. -/
theorem solve_divides (hop : op.divides = true) (hl : l.type.isNumber = true)
    (hr : r.type.isNumber = true) (ha : l.constant = some (.int a))
    (hb : r.constant = some (.int b))
    (hok : ∀ q ∈ (solve s l op.binOp r).2, q = .divideByZero) :
    (¬ Exchanges op l → Divides op a b (solve s l op.binOp r)) ∧
      (Exchanges op l → Divides op b a (solve s l op.binOp r)) := by
  have hlc : l.isConst = true := by simp [Value.isConst, ha]
  have hrc : r.isConst = true := by simp [Value.isConst, hb]
  obtain ⟨hkeeps, hexchanges⟩ := divides_operate hop hl hr ha hb hok
  exact ⟨fun h => (hkeeps h).settle hlc hrc, fun h => (hexchanges h).settle hlc hrc⟩

end Words

/-- No definitions, and words of 64 bits. -/
def emptySetting : Setting := ⟨({} : Package).definitions, .w64⟩

/-- The word `-7` of an unsigned type. -/
def byteWord : Value := .ofConst (.base .u8) (.int (-7))

/-- The word `0` of the type of a float. -/
def floatZero : Value := .ofConst (.base .f64) (.int 0)

theorem solve_divides_floatZero :
    (solve emptySetting byteWord .mod floatZero).2 = [.divideByZero] ∧
      Divides .mod (-7) 0 (solve emptySetting byteWord .mod floatZero) ∧
      (solve emptySetting floatZero .mod byteWord).2 = [.divideByZero] ∧
      Divides .mod (-7) 0 (solve emptySetting floatZero .mod byteWord) := by
  have hright := @solve_divides emptySetting byteWord floatZero (-7) 0 .mod rfl rfl rfl rfl rfl
    fun _ => List.mem_singleton.mp
  have hleft := @solve_divides emptySetting floatZero byteWord 0 (-7) .mod rfl rfl rfl rfl rfl
    fun _ => List.mem_singleton.mp
  exact ⟨rfl, hright.1 (fun h => nomatch h.2), rfl, hleft.2 ⟨rfl, rfl⟩⟩

end Operator

namespace Check

open Syntax (Expr)

/-- `-'a' >> 64`, a float by the amount of the shift and a signed word by the rune. -/
def shiftedRune : Expr :=
  .binary .shr (.unary .neg (.literal (.rune 'a') ⟨2, 5, 0⟩) ⟨1, 5, 0⟩)
    (.literal (.int 64) ⟨9, 11, 0⟩) ⟨1, 11, 0⟩

/-- `(-'a' >> 64) % 10` -/
def runeRemainder : Expr :=
  .binary .mod shiftedRune (.literal (.int 10) ⟨15, 17, 0⟩) ⟨0, 17, 0⟩

theorem runeRemainder_exchanged : ∃ u s₁ v s₂,
    Check.run {} {} 3 {} (eval shiftedRune none) {} = some (u, s₁) ∧
    u.type = .base .f32 ∧ u.constant = some (.int (-1)) ∧
    Check.run {} {} 4 {} (eval runeRemainder none) {} = some (v, s₂) ∧ s₂.diags = #[] ∧
    v.constant = some (.int 0) ∧ WordOp.mod.apply (-1) 10 = -1 :=
  ⟨_, _, _, _, rfl, rfl, rfl, rfl, rfl, rfl, by decide⟩

end Check

end JaneCheck
